import Welle.Parser

set_option autoImplicit false

/-! # The index of a module

What a file declares at its top level: every function and variable, those that are exported, and the
modules it imports under a name. The first declaration of a name counts. -/

namespace Welle

/-- The kinds of top-level symbol. -/
inductive SymbolKind where
  | func | var | moduleAlias
deriving DecidableEq, Repr

/-- A top-level symbol of a file. -/
structure ModuleSymbol where
  name : String
  kind : SymbolKind
  ident : Ident
  exported : Bool
deriving DecidableEq, Repr

/-- The index of a file. Definitions, exports and imports are keyed by name, in the order of their
    declaration. -/
structure ModuleIndex where
  defs : List (String × Ident)
  exports : List (String × Ident)
  imports : List (String × String)
  symbols : List ModuleSymbol
  diagnostics : List Diagnostic
deriving DecidableEq, Repr

namespace ModuleIndex

/-- The index of an empty file. -/
def empty : ModuleIndex := ⟨[], [], [], [], []⟩

/-- Adds an entry unless there is one for its key. -/
def insertNew {β : Type} (table : List (String × β)) (key : String) (value : β) :
    List (String × β) :=
  if (table.lookup key).isSome then table else table ++ [(key, value)]

/-- The report of a second export of a name. -/
def duplicate (id previous : Ident) : Diagnostic :=
  .error .duplicateExport
    s!"duplicate export {Text.quoted id.name} (previous at {previous.pos})" id.pos id.width

/-- Adds a symbol unless there is one of its name. -/
def addSymbol (index : ModuleIndex) (id : Ident) (kind : SymbolKind) (exported : Bool) :
    ModuleIndex :=
  if index.symbols.any (·.name = id.name) then index
  else { index with symbols := index.symbols ++ [⟨id.name, kind, id, exported⟩] }

/-- Adds a definition and its symbol. -/
def define (index : ModuleIndex) (id : Ident) (kind : SymbolKind) (exported : Bool) : ModuleIndex :=
  addSymbol { index with defs := insertNew index.defs id.name id } id kind exported

/-- Adds a declaration. A second export of a name is reported and left out. -/
def declare (index : ModuleIndex) (id : Ident) (kind : SymbolKind) (exported : Bool) :
    ModuleIndex :=
  if exported then
    match index.exports.lookup id.name with
    | some previous =>
      { index with diagnostics := index.diagnostics ++ [duplicate id previous] }
    | none => define { index with exports := index.exports ++ [(id.name, id)] } id kind true
  else define index id kind false

/-- The kind of symbol that a value makes of a name. -/
def kindOf (value : Expr) : SymbolKind :=
  if value.funcParams?.isSome then .func else .var

/-- Adds what a statement declares. -/
def visit (exported : Bool) (index : ModuleIndex) : Stmt → ModuleIndex
  | .func _ name _ _ => index.declare name .func exported
  | .assign _ name _ value => index.declare name (kindOf value) exported
  | .destructure _ targets _ _ =>
    (targets.filterMap Target.ident?).foldl (fun index id => index.declare id .var exported) index
  | .exported _ stmt => visit true index stmt
  | .importAs _ path (some name) =>
    addSymbol { index with imports := insertNew index.imports name.name path.value } name
      .moduleAlias false
  | _ => index

/-- The index of a program. -/
def ofProgram (program : Program) : ModuleIndex := program.stmts.foldl (visit false) empty

/-- The index of a text. -/
def ofText (text : String) : ModuleIndex := ofProgram (Program.parse text).program

/-- Whether a file exports a name. -/
def isExported (index : ModuleIndex) (name : String) : Bool := (index.exports.lookup name).isSome

end ModuleIndex

end Welle
