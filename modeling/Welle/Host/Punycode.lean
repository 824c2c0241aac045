set_option autoImplicit false

/-! # Punycode

A label with characters outside ASCII is written in ASCII: first its ASCII characters, then, behind
a hyphen, where the others go. They come in the order of their code points, and each is told by how
far it is from the one before, counting all code points and all places in the label. Such a distance
is written in digits of base 36 whose least value as a last digit, the threshold, depends on the
distances before. -/

namespace Welle.Host.Punycode

/-! ## Digits -/

/-- The base of the digits. -/
def base : Nat := 36

/-- The digit with a value below the base: the letters and then the decimal digits. -/
def digit (value : Nat) : Char :=
  if value < 26 then Char.ofNat ('a'.toNat + value) else Char.ofNat ('0'.toNat + (value - 26))

/-- The value of a digit. -/
def digitValue? (c : Char) : Option Nat :=
  if 'a' ≤ c && c ≤ 'z' then some (c.toNat - 'a'.toNat)
  else if 'A' ≤ c && c ≤ 'Z' then some (c.toNat - 'A'.toNat)
  else if '0' ≤ c && c ≤ '9' then some (c.toNat - '0'.toNat + 26)
  else none

/-- The threshold of the digit at place `k`, where places count in steps of the base. -/
def threshold (k bias : Nat) : Nat :=
  if k ≤ bias + 1 then 1 else if bias + 26 ≤ k then 26 else k - bias

theorem threshold_pos (k bias : Nat) : 1 ≤ threshold k bias := by
  unfold threshold
  split
  · omega
  · split <;> omega

/-- Counts the digits that a distance of this size takes, in steps of the base, up to the last. -/
def settle (k delta : Nat) : Nat :=
  if 455 < delta then settle (k + base) (delta / 35) else k + 36 * delta / (delta + 38)
termination_by delta
decreasing_by omega

/-- The bias behind a distance. The first one is mostly larger than those that follow. -/
def adapt (delta count : Nat) (isFirst : Bool) : Nat :=
  let delta := if isFirst then delta / 700 else delta / 2
  settle 0 (delta + delta / count)

/-- The bias before any distance. -/
def initialBias : Nat := 72

/-! ## Writing -/

/-- The digits of a distance from place `k` on. -/
def digits (bias k delta : Nat) : List Char :=
  let t := threshold k bias
  if delta < t then [digit delta]
  else digit (t + (delta - t) % (base - t)) :: digits bias (k + base) ((delta - t) / (base - t))
termination_by delta
decreasing_by
  have h := threshold_pos k bias
  have hdiv := Nat.div_le_self (delta - threshold k bias) (base - threshold k bias)
  omega

/-- A label while it is written: the text, the distance since the last character, the bias, and how
    many characters are written. -/
structure Writer where
  out : List Char
  delta : Nat
  bias : Nat
  count : Nat

/-- Passes a character of the label while those with code point `point` are written. -/
def Writer.step (ascii point : Nat) (w : Writer) (c : Char) : Writer :=
  if c.toNat < point then { w with delta := w.delta + 1 }
  else if c.toNat = point then
    { out := w.out ++ digits w.bias base w.delta
      delta := 0
      bias := adapt w.delta (w.count + 1) (w.count = ascii)
      count := w.count + 1 }
  else w

/-- Writes the characters with the given code points, of which all are at least `next`. -/
def Writer.run (label : List Char) (ascii : Nat) : Nat → Writer → List Nat → Writer
  | _, w, [] => w
  | next, w, point :: points =>
    let w := { w with delta := w.delta + (point - next) * (w.count + 1) }
    let w := label.foldl (Writer.step ascii point) w
    Writer.run label ascii (point + 1) { w with delta := w.delta + 1 } points

/-- Whether a character belongs to ASCII. -/
def isAscii (c : Char) : Bool := c.toNat < 0x80

/-- The text of a label. -/
def encode (label : List Char) : List Char :=
  let plain := label.filter isAscii
  let points := (label.filter (!isAscii ·)).map Char.toNat
  let points := (points.mergeSort fun a b => a ≤ b).eraseDups
  let start := if plain.isEmpty then [] else plain ++ ['-']
  (Writer.run label plain.length 0x80 ⟨start, 0, initialBias, plain.length⟩ points).out

/-! ## Reading -/

/-- A label while it is read: the label so far, the code point and the place that come next, and the
    bias; for the distance that is open also the place where it began, its next place among the
    digits, and what a digit there is worth. -/
structure Reader where
  label : List Char
  point : Nat
  place : Nat
  bias : Nat
  start : Nat
  k : Nat
  weight : Nat

/-- Puts in the character that a whole distance leads to, if there is one. -/
def Reader.put? (r : Reader) : Option Reader :=
  let count := r.label.length + 1
  let point := r.point + r.place / count
  let place := r.place % count
  if point.isValidChar then
    some {
      label := r.label.insertIdx place (Char.ofNat point)
      point
      place := place + 1
      bias := adapt (r.place - r.start) count (r.start = 0)
      start := place + 1
      k := base
      weight := 1 }
  else none

/-- Reads one digit. -/
def Reader.step? (r : Reader) (c : Char) : Option Reader := do
  let value ← digitValue? c
  let t := threshold r.k r.bias
  let r := { r with place := r.place + value * r.weight }
  if value < t then r.put?
  else return { r with k := r.k + base, weight := r.weight * (base - t) }

/-- The ASCII characters in front of the last hyphen and what follows it. -/
def split (text : List Char) : List Char × List Char :=
  let reversed := text.reverse
  match reversed.dropWhile (· ≠ '-') with
  | _ :: start :: plain => ((start :: plain).reverse, (reversed.takeWhile (· ≠ '-')).reverse)
  | _ => ([], text)

/-- The label that a text of ASCII characters stands for, if it does for any. -/
def decode? (text : List Char) : Option (List Char) := do
  let (plain, rest) := split text
  let r ← rest.foldlM Reader.step? ⟨plain, 0x80, 0, initialBias, 0, base, 1⟩
  if r.k = base then return r.label else none

end Welle.Host.Punycode
