import Welle.Editor.Range

set_option autoImplicit false

/-! # Documents

The text of a file that an editor has open. The editor sends edits; each one replaces a range of the
text. For edits a line ends at a line feed, a carriage return or both, and also at a vertical tab, a
form feed, a next-line character and at line and paragraph separators. -/

namespace Welle

/-- An open text and the version that the editor gives it. -/
structure Document where
  text : String
  version : Int
deriving DecidableEq, Repr

/-- An edit: a text that replaces a range, or the whole document. -/
structure Edit where
  range : Option Editor.Range
  text : String
deriving DecidableEq, Repr

namespace Document

/-- Characters that end a line. -/
def isLineBreak (c : Char) : Bool :=
  ['\n', '\x0b', '\x0c', '\r', '\u0085', '\u2028', '\u2029'].contains c

/-- The lines of a text, each with the characters that end it. -/
def lines : List Char → List (List Char)
  | [] => [[]]
  | '\r' :: '\n' :: cs => ['\r', '\n'] :: lines cs
  | c :: cs =>
    if isLineBreak c then [c] :: lines cs
    else match lines cs with
      | [] => [[c]]
      | l :: ls => (c :: l) :: ls

/-- How many characters of a line stand before a UTF-16 column. A line feed is never passed. -/
def charsBefore (line : List Char) (character : Nat) : Nat :=
  (Text.splitUnits character (line.takeWhile (· ≠ '\n'))).1.length

/-- How many characters of a text stand before a cursor; all of them behind the last line. -/
def offset (text : List Char) (cursor : Editor.Cursor) : Nat :=
  let lines := lines text
  match lines[cursor.line]? with
  | none => text.length
  | some line =>
    (lines.take cursor.line).flatten.length + charsBefore line cursor.character

/-- The text after an edit. The ends of a range may stand in either order. -/
def edited (text : List Char) (edit : Edit) : List Char :=
  match edit.range with
  | none => edit.text.toList
  | some range =>
    let a := offset text range.start
    let b := offset text range.stop
    text.take (min a b) ++ edit.text.toList ++ text.drop (max a b)

/-- The document after edits, one after the other. -/
def change (doc : Document) (edits : List Edit) (version : Int) : Document :=
  ⟨.ofList (edits.foldl edited doc.text.toList), version⟩

end Document

end Welle
