import Welle.Analysis
import Welle.Editor.Range
import Welle.Module.Index

set_option autoImplicit false

/-! # Diagnostics for an editor -/

namespace Welle.Editor

/-- A diagnostic as an editor shows it. -/
structure Report where
  range : Range
  severity : Severity
  code : String
  source : String
  message : String
deriving DecidableEq, Repr

/-- The number of a severity in the editor protocol. -/
def severityNumber : Severity → Nat
  | .error => 1
  | .warning => 2
  | .info => 3

/-- A diagnostic about a text, with the range it covers there. -/
def Report.ofDiagnostic (text : String) (d : Diagnostic) : Report where
  range := charRange text d.pos d.length
  severity := d.severity
  code := d.rule.code
  source := "welle"
  message := d.message

/-- The diagnostics of the parser, the analysis and the module index for a text. -/
def reports (text : String) : List Report :=
  let an := Analysis.ofText text
  (an.diagnostics ++ (ModuleIndex.ofProgram an.program).diagnostics).map (.ofDiagnostic text)

end Welle.Editor
