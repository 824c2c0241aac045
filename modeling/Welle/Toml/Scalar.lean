import Welle.Numeral
import Welle.Toml.Text
import Welle.Toml.Value

set_option autoImplicit false

/-! # TOML scalars

Numbers, times and truth values are words: what they are is decided on the whole word. -/

namespace Welle.Toml

/-! ## Numbers -/

/-- Whether decimal digits start with a zero that is not the only one. -/
def hasLeadingZero (digits : List Char) : Bool :=
  match digits with
  | '0' :: c :: _ => c.isDigit || c = '_'
  | _ => false

/-- The sign of a number and what follows it. -/
def splitSign : List Char → Option Bool × List Char
  | '+' :: cs => (some false, cs)
  | '-' :: cs => (some true, cs)
  | cs => (none, cs)

/-- Whether an integer can be held: it has at most 128 bits, with or without a sign. -/
def fits (value : Int) : Bool := -(Nat.pow 2 127 : Int) ≤ value && value < (Nat.pow 2 128 : Int)

/-- The value of a word that is an integer. A base mark is in lower case and takes no sign. -/
def integer? (sign : Option Bool) (digits : List Char) (found : Numeral.Normalized) :
    Option Value :=
  if found.base ≠ 10 && (sign.isSome || digits[1]?.any Char.isUpper) then none
  else
    let magnitude : Int := Text.positional found.base found.text.toList
    let value := if sign = some true then -magnitude else magnitude
    if fits value then some (.int value) else none

/-- The value of a word that is a number. A float must not be too large. -/
def number? (word : List Char) : Option Value :=
  let (sign, digits) := splitSign word
  if digits = ['i', 'n', 'f'] || digits = ['n', 'a', 'n'] then some .float
  else if hasLeadingZero digits then none
  else match Numeral.normalize (.ofList digits) with
    | .error _ => none
    | .ok found =>
      if found.isFloat then
        (Numeral.decimal found.text.toList).toDouble?.map fun _ => .float
      else integer? sign digits found

/-! ## Times -/

/-- A number of `count` digits that is at least `low` and at most `high`. -/
def field? (count low high : Nat) (cs : List Char) : Option (Nat × List Char) :=
  let digits := cs.take count
  let n := Text.positional 10 digits
  if digits.length = count && digits.all Char.isDigit && low ≤ n && n ≤ high then
    some (n, cs.drop count)
  else none

/-- What follows a character. -/
def behind? (c : Char) : List Char → Option (List Char)
  | first :: rest => if first = c then some rest else none
  | [] => none

/-- The number of days of a month. -/
def daysOf (year month : Nat) : Nat :=
  if month = 2 then if year % 4 = 0 && (year % 100 ≠ 0 || year % 400 = 0) then 29 else 28
  else if [4, 6, 9, 11].contains month then 30
  else 31

/-- What follows a date. -/
def date? (cs : List Char) : Option (List Char) := do
  let (year, cs) ← field? 4 0 9999 cs
  let (month, cs) ← field? 2 1 12 (← behind? '-' cs)
  let (_, cs) ← field? 2 1 (daysOf year month) (← behind? '-' cs)
  return cs

/-- What follows the fraction of a second, if there is one. -/
def fraction? : List Char → Option (List Char)
  | '.' :: c :: cs => if c.isDigit then some (cs.dropWhile Char.isDigit) else none
  | cs => some cs

/-- What follows a time of day. Its seconds may be left out. -/
def clock? (cs : List Char) : Option (List Char) := do
  let (_, cs) ← field? 2 0 23 cs
  let (_, cs) ← field? 2 0 59 (← behind? ':' cs)
  match cs with
  | ':' :: cs =>
    let (_, cs) ← field? 2 0 60 cs
    fraction? cs
  | cs => return cs

/-- What follows the distance from universal time, if there is one. -/
def offset? : List Char → Option (List Char)
  | 'Z' :: cs | 'z' :: cs => some cs
  | '+' :: cs | '-' :: cs => do
    let (_, cs) ← field? 2 0 23 cs
    let (_, cs) ← field? 2 0 59 (← behind? ':' cs)
    return cs
  | cs => some cs

/-- Whether a word is a date, a time of day, or both. -/
def isTime (word : List Char) : Bool :=
  let rest := match date? word with
    | some [] => some []
    | some (c :: clock) =>
      if c = 'T' || c = 't' || c = ' ' then (clock? clock).bind offset? else none
    | none => clock? word
  rest = some []

/-! ## Words -/

/-- Whether a character belongs to a word. -/
def isWordPart (c : Char) : Bool := isBare c || c = '+' || c = '.' || c = ':'

/-- The word that a text starts with and the rest. A date and a time of day with one blank between
    them are one word. -/
def takeWord (cs : List Char) : List Char × List Char :=
  let word := cs.takeWhile isWordPart
  match cs.dropWhile isWordPart with
  | ' ' :: c :: rest =>
    if date? word = some [] && c.isDigit then
      (word ++ ' ' :: (c :: rest).takeWhile isWordPart, (c :: rest).dropWhile isWordPart)
    else (word, ' ' :: c :: rest)
  | rest => (word, rest)

/-- The value of a word. -/
def word? (word : List Char) : Option Value :=
  if word = ['t', 'r', 'u', 'e'] then some (.bool true)
  else if word = ['f', 'a', 'l', 's', 'e'] then some (.bool false)
  else if isTime word then some .time
  else number? word

/-- A string or a word. -/
def scalarValue? (cs : List Char) : Option (Value × List Char) :=
  match cs with
  | '"' :: _ | '\'' :: _ => (string? cs).map fun (text, rest) => (.text text, rest)
  | _ =>
    let (word, rest) := takeWord cs
    (word? word).map (·, rest)

end Welle.Toml
