import Welle.Text.Digit

set_option autoImplicit false

/-! # Tables written as text

A long table of numbers is kept as text: hexadecimal numbers with blanks or line ends between them,
and a semicolon behind every row. -/

namespace Welle.Text.Table

/-- A table while its text is read, with the last things first: the rows so far, the numbers of the
    row that is open, and the number that is open. -/
structure Reader where
  rows : List (List Nat)
  row : List Nat
  number : Option Nat

/-- Ends the open number. -/
def Reader.endNumber (reader : Reader) : Reader :=
  { reader with row := reader.number.toList ++ reader.row, number := none }

/-- Ends the open row. -/
def Reader.endRow (reader : Reader) : Reader :=
  { reader with rows := reader.row.reverse :: reader.rows, row := [] }

/-- Reads one character. -/
def Reader.step (reader : Reader) (c : Char) : Reader :=
  match digitValue? c with
  | some digit => { reader with number := some (reader.number.getD 0 * 16 + digit) }
  | none => if c = ';' then reader.endNumber.endRow else reader.endNumber

/-- The rows of a table. -/
def rows (text : String) : List (List Nat) :=
  (text.toList.foldl Reader.step ⟨[], [], none⟩).rows.reverse

/-- The inclusive range that a row of one or two numbers stands for. -/
def range? : List Nat → Option (Nat × Nat)
  | [only] => some (only, only)
  | [first, last] => some (first, last)
  | _ => none

/-- The ranges of a table that has one in each row. -/
def ranges (text : String) : List (Nat × Nat) := (rows text).filterMap range?

/-- Whether a number is in one of the ranges. -/
def within (ranges : List (Nat × Nat)) (n : Nat) : Bool :=
  ranges.any fun (first, last) => first ≤ n && n ≤ last

end Welle.Text.Table
