import Welle.Editor.Range
import Welle.Module.Index

set_option autoImplicit false

/-! # The outline of a file -/

namespace Welle.Editor

/-- An entry of an outline. -/
structure OutlineItem where
  name : String
  kind : SymbolKind
  detail : Option String
  range : Range
deriving DecidableEq, Repr

/-- The number of a kind of symbol in the editor protocol. -/
def symbolNumber : SymbolKind → Nat
  | .func => 12
  | .var => 13
  | .moduleAlias => 3

/-- The top-level symbols of a text, in order. -/
def outline (text : String) : List OutlineItem :=
  (ModuleIndex.ofText text).symbols.map fun symbol =>
    { name := symbol.name
      kind := symbol.kind
      detail := if symbol.exported then some "export" else none
      range := identRange text symbol.ident }

end Welle.Editor
