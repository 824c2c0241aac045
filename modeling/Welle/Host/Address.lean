import Welle.Text.Digit
import Welle.Text.Measure

set_option autoImplicit false

/-! # Numeric addresses

A host can be an address of four bytes, written with dots, or one of eight groups of sixteen bits,
written with colons. Both can be written in several ways and have one standard form. -/

namespace Welle.Host

/-! ## Four bytes -/

namespace Bytes

/-- The number that digits of a base stand for, with zero for none. -/
def ofDigits? (base : Nat) (digits : List Char) : Option Nat :=
  if digits.all (Text.isDigitOf base) then some (Text.positional base digits) else none

/-- The number that a part stands for: hexadecimal behind `0x`, octal behind another zero. -/
def number? : List Char → Option Nat
  | [] => none
  | '0' :: 'x' :: digits => ofDigits? 16 digits
  | '0' :: digit :: digits => ofDigits? 8 (digit :: digits)
  | digits => ofDigits? 10 digits

/-- The parts of an address. The last one may have a dot behind it. -/
def parts (labels : List (List Char)) : List (List Char) :=
  if 1 < labels.length && labels.getLast? = some [] then labels.dropLast else labels

/-- Whether a host with these labels can only be an address. -/
def isMeant (labels : List (List Char)) : Bool :=
  match (parts labels).getLast? with
  | none | some [] => false
  | some part => part.all Char.isDigit || (number? part).isSome

/-- The address with these labels. All numbers but the last are bytes; the last one fills up. -/
def parse? (labels : List (List Char)) : Option Nat := do
  let numbers ← (parts labels).mapM number?
  let bytes := numbers.dropLast
  let last ← numbers.getLast?
  guard (bytes.length ≤ 3 && bytes.all (· < 256) && last < Nat.pow 256 (4 - bytes.length))
  return bytes.foldl (fun n byte => n * 256 + byte) 0 * Nat.pow 256 (4 - bytes.length) + last

/-- The text of an address. -/
def write (address : Nat) : String :=
  Text.join "." ([3, 2, 1, 0].map fun place => toString (address / Nat.pow 256 place % 256))

end Bytes

/-! ## Eight groups -/

namespace Groups

/-- A group of one to four hexadecimal digits. -/
def group? (digits : List Char) : Option Nat :=
  if digits.isEmpty || 4 < digits.length then none else Bytes.ofDigits? 16 digits

/-- A byte in decimal digits, without a zero in front. -/
def byte? (digits : List Char) : Option Nat := do
  guard (!digits.isEmpty && digits.all Char.isDigit)
  guard (digits = ['0'] || digits.head? ≠ some '0')
  let byte := Text.positional 10 digits
  if byte < 256 then return byte else none

/-- The two groups of an address of four bytes. -/
def ofBytes? (text : List Char) : Option (List Nat) := do
  match ← (text.splitOn '.').mapM byte? with
  | [a, b, c, d] => return [a * 256 + b, c * 256 + d]
  | _ => none

/-- The groups of the parts between colons. The last one may be an address of four bytes if the
    whole address ends there. -/
def ofParts? (isEnd : Bool) : List (List Char) → Option (List Nat)
  | [] => some []
  | [part] => if isEnd && part.contains '.' then ofBytes? part else (group? part).map ([·])
  | part :: parts => do return (← group? part) :: (← ofParts? isEnd parts)

/-- The groups of a text, which may be empty. -/
def side? (isEnd : Bool) (text : List Char) : Option (List Nat) :=
  if text.isEmpty then some [] else ofParts? isEnd (text.splitOn ':')

/-- The texts before and behind the first double colon. -/
def splitGap? : List Char → Option (List Char × List Char)
  | ':' :: ':' :: rest => some ([], rest)
  | c :: rest => (splitGap? rest).map fun (before, behind) => (c :: before, behind)
  | [] => none

/-- The eight groups of an address. A double colon stands for one or more groups of zero. -/
def parse? (text : List Char) : Option (List Nat) :=
  match splitGap? text with
  | none => do
    let groups ← ofParts? true (text.splitOn ':')
    if groups.length = 8 then return groups else none
  | some (before, behind) => do
    let left ← side? false before
    let right ← side? true behind
    let known := left.length + right.length
    if known < 8 then return left ++ List.replicate (8 - known) 0 ++ right else none

/-- The number of zeros at the start of a list. -/
def zeros (groups : List Nat) : Nat := (groups.takeWhile (· = 0)).length

/-- The longest run of zeros, the first of several, as its place and its length. -/
def longestRun : List Nat → Nat × Nat
  | [] => (0, 0)
  | group :: groups =>
    let here := zeros (group :: groups)
    let (place, length) := longestRun groups
    if length ≤ here then (0, here) else (place + 1, length)

/-- The groups in hexadecimal digits with colons between them. -/
def writeSide (groups : List Nat) : String :=
  Text.join ":" (groups.map fun group => String.ofList (Nat.toDigits 16 group))

/-- The text of an address: the longest run of two or more zeros is left out. -/
def write (groups : List Nat) : String :=
  let (place, length) := longestRun groups
  if length < 2 then writeSide groups
  else writeSide (groups.take place) ++ "::" ++ writeSide (groups.drop (place + length))

end Groups

end Welle.Host
