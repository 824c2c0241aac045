set_option autoImplicit false

/-! # Measures of text

Editors count UTF-16 code units, source positions count UTF-8 bytes, diagnostics count characters.
Both encodings are measures on a list of characters. `Text.lines` cuts a text at its line feeds. -/

namespace Welle.Text

/-- The number of UTF-16 code units of a character. -/
def units (c : Char) : Nat := if c.toNat < 0x10000 then 1 else 2

/-- The number of UTF-16 code units of a text. -/
def unitLength : List Char → Nat
  | [] => 0
  | c :: cs => units c + unitLength cs

/-- The number of UTF-8 bytes of a text. -/
def byteLength : List Char → Nat
  | [] => 0
  | c :: cs => c.utf8Size + byteLength cs

/-- The longest beginning of `cs` that has at most `n` bytes, and what follows it. -/
def splitBytes : Nat → List Char → List Char × List Char
  | _, [] => ([], [])
  | n, c :: cs =>
    if c.utf8Size ≤ n then
      let (taken, rest) := splitBytes (n - c.utf8Size) cs
      (c :: taken, rest)
    else ([], c :: cs)

/-- The longest beginning of `cs` that has at most `n` UTF-16 units, and what follows it. -/
def splitUnits : Nat → List Char → List Char × List Char
  | _, [] => ([], [])
  | n, c :: cs =>
    if units c ≤ n then
      let (taken, rest) := splitUnits (n - units c) cs
      (c :: taken, rest)
    else ([], c :: cs)

/-- The characters from byte offset `n` on, if `n` is a character boundary within the text. -/
def dropBytes? : Nat → List Char → Option (List Char)
  | 0, cs => some cs
  | _ + 1, [] => none
  | n + 1, c :: cs => if c.utf8Size ≤ n + 1 then dropBytes? (n + 1 - c.utf8Size) cs else none
termination_by structural _ cs => cs

/-- The lines of a text, between its line feeds. There is always at least one. -/
def lines (cs : List Char) : List (List Char) := cs.splitOn '\n'

/-- The line with the given index, counted from zero. -/
def line? (text : String) (i : Nat) : Option (List Char) := (lines text.toList)[i]?

/-- The texts of `parts` with `sep` between them. -/
def join (sep : String) : List String → String
  | [] => ""
  | [part] => part
  | part :: parts => part ++ sep ++ join sep parts

end Welle.Text
