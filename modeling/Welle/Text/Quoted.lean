import Welle.Text.Unprintable

set_option autoImplicit false

/-! # Quoted text in messages

Messages show a name or a character between quotes so that every character of it is visible. The
quote in use, the backslash and the four short escapes get a backslash; characters without a printed
form are written by code point in lower case hexadecimal. -/

namespace Welle.Text

/-- How `c` is written between two characters `mark`. -/
def escapeFor (mark c : Char) : List Char :=
  if c = '\x00' then ['\\', '0']
  else if c = '\t' then ['\\', 't']
  else if c = '\r' then ['\\', 'r']
  else if c = '\n' then ['\\', 'n']
  else if c = '\\' || c = mark then ['\\', c]
  else if isUnprintable c then ['\\', 'u', '{'] ++ Nat.toDigits 16 c.toNat ++ ['}']
  else [c]

/-- A text between double quotes. -/
def quoted (s : String) : String :=
  String.ofList (['"'] ++ s.toList.flatMap (escapeFor '"') ++ ['"'])

/-- A character between single quotes. -/
def quotedChar (c : Char) : String :=
  String.ofList (['\''] ++ escapeFor '\'' c ++ ['\''])

end Welle.Text
