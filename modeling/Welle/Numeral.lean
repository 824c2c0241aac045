import Welle.Decimal.Shortest
import Welle.Text.Digit
import Welle.Text.Quoted

set_option autoImplicit false

/-! # Numeric literals

A number token is scanned greedily; whether it is a number is decided here. `Numeral.normalize`
checks the digit groups, the base mark and the exponent and removes the grouping underscores;
`Numeral.parse` gives the value, a signed 64-bit integer or a double. -/

namespace Welle.Numeral

/-- A checked literal: its text without base mark and underscores, its base, and whether it has a
    fraction or an exponent. -/
structure Normalized where
  text : String
  base : Nat
  isFloat : Bool
deriving DecidableEq, Repr

/-- The value of a literal. -/
inductive Number where
  | int (value : Int)
  | float (value : Double)
deriving DecidableEq, Repr

/-- What can be wrong with a literal. -/
inductive Error where
  | noDigits
  | strayUnderscore
  | invalidDigit (digit : Char) (base : Nat)
  | noMantissa
  | barePoint
  | pointWithBase
  | noExponent
  | floatRange
  | integerRange
deriving DecidableEq, Repr

/-- The wording of an error. -/
def Error.message : Error → String
  | noDigits => "digits required"
  | strayUnderscore => "underscores must separate digits"
  | invalidDigit digit base => s!"invalid digit {Text.quotedChar digit} for base {base}"
  | noMantissa => "float literal requires digits"
  | barePoint => "float literal requires digits on both sides of decimal point"
  | pointWithBase => "float literal cannot use base prefix"
  | noExponent => "exponent requires digits"
  | floatRange => "float literal out of range"
  | integerRange => "integer literal out of range"

/-! ## Digit groups -/

/-- Checks the rest of a digit group; `afterDigit` says whether a digit stands right before it. An
    underscore needs a digit on either side. -/
def checkDigits (base : Nat) (afterDigit : Bool) : List Char → Except Error Unit
  | [] => if afterDigit then .ok () else .error .strayUnderscore
  | c :: cs =>
    if c = '_' then
      if afterDigit then checkDigits base false cs else .error .strayUnderscore
    else if Text.isDigitOf base c then checkDigits base true cs
    else .error (.invalidDigit c base)

/-- Checks a digit group: digits of the base with single underscores only between digits. -/
def checkGroup (base : Nat) (cs : List Char) : Except Error Unit :=
  if cs.isEmpty then .error .noDigits else checkDigits base false cs

/-- The text without its underscores. -/
def stripUnderscores (cs : List Char) : List Char := cs.filter (· ≠ '_')

/-! ## Literals -/

/-- The base that a literal is marked with, and its digits. -/
def splitBase : List Char → Nat × List Char
  | '0' :: c :: cs =>
    if c = 'x' || c = 'X' then (16, cs)
    else if c = 'b' || c = 'B' then (2, cs)
    else if c = 'o' || c = 'O' then (8, cs)
    else (10, '0' :: c :: cs)
  | cs => (10, cs)

/-- The text before the first character that satisfies `p` and, if there is one, the text behind
    it. -/
def splitAtFirst (p : Char → Bool) (cs : List Char) : List Char × Option (List Char) :=
  match cs.dropWhile (!p ·) with
  | [] => (cs, none)
  | _ :: rest => (cs.takeWhile (!p ·), some rest)

/-- Whether `c` introduces an exponent. -/
def isExponentMark (c : Char) : Bool := c = 'e' || c = 'E'

/-- Checks the part of a float before the exponent. -/
def normalizeMantissa (cs : List Char) : Except Error (List Char) :=
  if cs.isEmpty then .error .noMantissa
  else match splitAtFirst (· = '.') cs with
    | (whole, some fraction) => do
      if whole.isEmpty || fraction.isEmpty then throw .barePoint
      checkGroup 10 whole
      checkGroup 10 fraction
      return stripUnderscores whole ++ '.' :: stripUnderscores fraction
    | (whole, none) => do
      checkGroup 10 whole
      return stripUnderscores whole

/-- The sign in front of an exponent and its digits. -/
def splitSign : List Char → List Char × List Char
  | c :: cs => if c = '+' || c = '-' then ([c], cs) else ([], c :: cs)
  | [] => ([], [])

/-- Checks what follows the exponent mark. -/
def normalizeExponent (cs : List Char) : Except Error (List Char) := do
  let (sign, digits) := splitSign cs
  if digits.isEmpty then throw .noExponent
  checkGroup 10 digits
  return 'e' :: (sign ++ stripUnderscores digits)

/-- Checks a literal and removes its grouping underscores. -/
def normalize (literal : String) : Except Error Normalized := do
  let cs := literal.toList
  let (base, digits) := splitBase cs
  if base ≠ 10 then
    if digits.contains '.' then throw .pointWithBase
    checkGroup base digits
    return ⟨String.ofList (stripUnderscores digits), base, false⟩
  let (mantissa, exponent) := splitAtFirst isExponentMark cs
  if !mantissa.contains '.' && exponent.isNone then
    checkGroup 10 cs
    return ⟨String.ofList (stripUnderscores cs), 10, false⟩
  let text ← normalizeMantissa mantissa
  match exponent with
  | none => return ⟨String.ofList text, 10, true⟩
  | some exponent => return ⟨String.ofList (text ++ (← normalizeExponent exponent)), 10, true⟩

/-! ## Values -/

/-- The decimal that the text of a checked float stands for. -/
def decimal (text : List Char) : Decimal :=
  let (mantissa, exponent) := splitAtFirst isExponentMark text
  let (whole, fraction) := splitAtFirst (· = '.') mantissa
  let (sign, digits) := splitSign (exponent.getD [])
  let power : Int := Text.positional 10 digits
  { coefficient := Text.positional 10 (whole ++ fraction.getD [])
    exponent := (if sign = ['-'] then -power else power) - (fraction.getD []).length }

/-- The value of a literal. -/
def parse (literal : String) : Except Error Number := do
  let checked ← normalize literal
  if checked.isFloat then
    match (decimal checked.text.toList).toDouble? with
    | some value => return .float value
    | none => throw .floatRange
  let value := Text.positional checked.base checked.text.toList
  if value < Nat.pow 2 63 then return .int value else throw .integerRange

/-- Numbers from `0.0001` up to `10 ^ 16` are written positionally. -/
def layout : Decimal.Layout := ⟨-3, 16⟩

/-- The text of a float value, which reads back as the same value. -/
def writeFloat (value : Double) : String := value.shortest.write layout

end Welle.Numeral
