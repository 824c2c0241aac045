import Welle.Editor.Highlight
import Welle.Editor.Outline
import Welle.Editor.Report
import Welle.Feature.Completion
import Welle.Feature.Definition
import Welle.Feature.Hover
import Welle.Feature.Rename
import Welle.Module.Load
import Welle.Proofs.References
import Welle.Proofs.Naming
import Welle.Proofs.Renaming
import Welle.Tree.Printer
import Welle.Uri.Parser
import Welle.Proofs.Parser.Levels
import Welle.Proofs.Parser.Progress
import Welle.Proofs.Layout
import Welle.Proofs.Placement
import Welle.Proofs.Sight
import Welle.Proofs.Store
import Welle.Proofs.WellFormed
import Welle.Proofs.Append.Analysis
import Welle.Proofs.LineBreaks
import Welle.Proofs.Symbols
import Welle.Proofs.TopLevel
import Welle.Proofs.Exports
import Welle.Proofs.Definition
import Welle.Proofs.Embedding
import Welle.Proofs.Kept
import Welle.Proofs.Printing.Quoting
import Welle.Proofs.Printing.Programs
import Welle.Proofs.Chains
import Welle.Proofs.Parser.Destructuring
import Welle.Proofs.LoopNames
import Welle.Proofs.Newlines.Program
import Welle.Proofs.NumberTokens
import Welle.Proofs.Origins
import Welle.Proofs.Keys
import Welle.Proofs.ScopedNames
import Welle.Proofs.Offers
import Welle.Proofs.Cursors
import Welle.Proofs.Highlighting
import Welle.Proofs.Pairing
import Welle.Proofs.Normalization
import Welle.Proofs.Parser.Contained
import Welle.Proofs.Arguments
