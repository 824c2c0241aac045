import Welle.Analysis.Scope
import Welle.Parser
import Welle.Text.Measure

set_option autoImplicit false

/-! # The exports of a module

What a file offers to those that import it: its exported functions and variables, ordered by name.
-/

namespace Welle

/-- An exported function or variable. -/
structure ModuleExport where
  name : String
  params : List String
  kind : BindingKind
  decl : Ident
deriving DecidableEq, Repr

/-- The name of an export; that of a function with its parameters. -/
def ModuleExport.signature (e : ModuleExport) : String :=
  if e.kind = .func then e.name ++ "(" ++ Text.join ", " e.params ++ ")" else e.name

/-- The exports of a file, ordered by name, and its path as it is shown. -/
structure ModuleInfo where
  path : String
  exports : List ModuleExport
deriving DecidableEq, Repr

namespace ModuleInfo

/-- What an exported statement offers. -/
def ofExported? : Stmt → Option ModuleExport
  | .func _ name params _ => some ⟨name.name, params.map (·.name), .func, name⟩
  | .assign _ name _ value =>
    match value.funcParams? with
    | some params => some ⟨name.name, params, .func, name⟩
    | none => some ⟨name.name, [], .var, name⟩
  | _ => none

/-- What a statement offers. -/
def ofStmt? : Stmt → Option ModuleExport
  | .exported _ stmt => ofExported? stmt
  | _ => none

/-- Adds an export unless there is one of its name. -/
def insertNew (exports : List ModuleExport) (e : ModuleExport) : List ModuleExport :=
  if exports.any (·.name = e.name) then exports else exports ++ [e]

/-- The exports of a program, the first of each name. -/
def exportsOf (program : Program) : List ModuleExport :=
  (program.stmts.filterMap ofStmt?).foldl insertNew []

/-- The exports of the file at `path` with the given text. -/
def ofText (path text : String) : ModuleInfo :=
  ⟨path, (exportsOf (Program.parse text).program).mergeSort fun a b => !(b.name < a.name)⟩

/-- The export of a name. -/
def export? (info : ModuleInfo) (name : String) : Option ModuleExport :=
  info.exports.find? (·.name = name)

end ModuleInfo

end Welle
