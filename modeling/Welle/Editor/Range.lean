import Welle.Text.Measure
import Welle.Tree

set_option autoImplicit false

/-! # Places as editors count them

An editor counts lines from zero and columns in UTF-16 code units from zero. `cursorOf` and
`positionOf?` convert between such a cursor and a source position; both stay on the line they are
given and never stop inside a character. Lines end at line feeds. -/

namespace Welle.Editor

/-- A place in a text: line and UTF-16 column, both counted from zero. -/
structure Cursor where
  line : Nat
  character : Nat
deriving DecidableEq, Repr

/-- A range of a text, without the character at its end. -/
structure Range where
  start : Cursor
  stop : Cursor
deriving DecidableEq, Repr

/-- The cursor at a source position. A column behind the end of its line counts as the end, and one
    inside a character as the start of the character. -/
def cursorOf (text : String) (pos : Position) : Cursor :=
  let line := pos.line - 1
  match Text.line? text line with
  | none => ⟨line, 0⟩
  | some cs => ⟨line, Text.unitLength (Text.splitBytes (pos.column - 1) cs).1⟩

/-- The source position at a cursor, or `none` behind the last line. A column behind the end of its
    line counts as the end, and one inside a surrogate pair as the start of its character. -/
def positionOf? (text : String) (cursor : Cursor) : Option Position :=
  (Text.line? text cursor.line).map fun cs =>
    ⟨cursor.line + 1, Text.byteLength (Text.splitUnits cursor.character cs).1 + 1⟩

/-- The characters of a line from a byte column on; none from a column inside a character. -/
def charsFrom (text : String) (pos : Position) : List Char :=
  match Text.line? text (pos.line - 1) with
  | none => []
  | some cs => (Text.dropBytes? (min (pos.column - 1) (Text.byteLength cs)) cs).getD []

/-- The range of `count` characters from a position on, at least one unit wide. Characters behind
    the end of the line count one unit each. -/
def charRange (text : String) (pos : Position) (count : Nat) : Range :=
  let start := cursorOf text pos
  let covered := (charsFrom text pos).take count
  let width := Text.unitLength covered + (count - covered.length)
  ⟨start, ⟨start.line, start.character + max width 1⟩⟩

/-- The range of a name. -/
def identRange (text : String) (id : Ident) : Range := charRange text id.pos id.name.length

/-- The cursor at the end of a text. -/
def endCursor (text : String) : Cursor :=
  ⟨text.toList.count '\n', Text.unitLength (lastLine text.toList)⟩

/-- The range of a whole text. -/
def fullRange (text : String) : Range := ⟨⟨0, 0⟩, endCursor text⟩

end Welle.Editor
