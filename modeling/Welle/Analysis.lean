import Welle.Analysis.Walk
import Welle.Parser

set_option autoImplicit false

/-! # Analysis of a file

`Analysis.ofText` parses a text and walks the program. The queries answer what an editor asks: which
scope is at a position, which names it sees, and what stands under the cursor. -/

namespace Welle

/-- The analysis of one text. The diagnostics are those of the parser, then those of the walk. -/
structure Analysis where
  program : Program
  scopes : Scopes
  bindings : Array Binding
  references : Array Reference
  diagnostics : List Diagnostic

/-- What stands under a cursor. -/
inductive Site where
  | reference (r : Reference)
  | declaration (binding : Nat)
deriving DecidableEq, Repr

/-- The binding that a site names. -/
def Site.binding? : Site → Option Nat
  | reference r => r.binding?
  | declaration binding => some binding

/-- Whether a position is on a name or just behind its last byte. -/
def Ident.covers (id : Ident) (pos : Position) : Bool :=
  pos.line = id.pos.line && id.pos.column ≤ pos.column
    && pos.column ≤ id.pos.column + max id.name.utf8ByteSize 1

namespace Analysis

/-- The analysis of a text. -/
def ofText (text : String) : Analysis :=
  let parsed := Program.parse text
  let walk := Walk.ofProgram (.ofText text) parsed.program
  { program := parsed.program
    scopes := walk.scopes
    bindings := walk.bindings
    references := walk.references
    diagnostics := parsed.diagnostics ++ walk.diagnostics }

variable (an : Analysis)

/-- The innermost scope at a position; the file where no other contains it. -/
def scopeAt (pos : Position) : Nat := an.scopes.descend pos rootScope

/-- A scope and the scopes around it, innermost first. -/
def scopeChain (scope : Nat) : List Nat := an.scopes.chain scope

/-- The binding of a name that a scope sees. -/
def lookup (scope : Nat) (name : String) : Option Nat := an.scopes.lookup scope name

/-- The binding of a name that is visible at a position. -/
def resolveAt (pos : Position) (name : String) : Option Nat := an.lookup (an.scopeAt pos) name

/-- The reference under a position, or else the binding declared there. -/
def siteAt? (pos : Position) : Option Site :=
  match an.references.find? (·.ident.covers pos) with
  | some r => some (.reference r)
  | none => (an.bindings.findIdx? (·.decl.covers pos)).map .declaration

/-- The names of a scope that are not already among `seen`, with their bindings. -/
def fresh (seen : List String) (names : List (String × Nat)) : List (String × Nat) :=
  names.filter fun (name, _) => !seen.contains name

/-- The names visible from a chain of scopes, innermost first. A name hides the same name further
    out. -/
def visibleNames (scopes : Scopes) (seen : List String) : List Nat → List (String × Nat)
  | [] => []
  | scope :: chain =>
    let own := fresh seen ((scopes[scope]?.map (·.names)).getD [])
    own ++ visibleNames scopes (own.map (·.1) ++ seen) chain

/-- The bindings visible from a scope, innermost first. -/
def visible (scope : Nat) : List Nat :=
  (visibleNames an.scopes [] (an.scopeChain scope)).map (·.2)

/-- The uses of a binding, in the order of the walk. -/
def referencesTo (binding : Nat) : List Reference :=
  an.references.toList.filter (·.binding? = some binding)

/-- The binding of a name in the scope of the file. -/
def topLevel? (name : String) : Option Nat := an.scopes.own? rootScope name

end Analysis

end Welle
