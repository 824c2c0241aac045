set_option autoImplicit false

/-! # Binary floating point

A non-negative finite number of the 64-bit binary format, held exactly as a significand and a power
of two. `Decimal` is a natural number times a power of ten; `Decimal.toDouble?` is the nearest
`Double`, with a tie going to the even significand, and `none` past the largest one. -/

namespace Welle

/-- The number `significand * 2 ^ exponent`. -/
structure Double where
  significand : Nat
  exponent : Int
deriving DecidableEq, Repr

/-- The number `coefficient * 10 ^ exponent`. -/
structure Decimal where
  coefficient : Nat
  exponent : Int
deriving DecidableEq, Repr

/-! ## Exact arithmetic on ratios -/

/-- The number of decimal digits of `n`, with none for zero. -/
def Decimal.digitCount (n : Nat) : Nat :=
  if n = 0 then 0 else digitCount (n / 10) + 1

/-- The quotient rounded to the nearest natural number, a tie to the even one. -/
def roundDiv (num den : Nat) : Nat :=
  let q := num / den
  let r := num % den
  if 2 * r < den then q
  else if 2 * r = den then (if q % 2 = 0 then q else q + 1)
  else q + 1

/-- Numerator and denominator of `num / den * base ^ e`. -/
def scaleRatio (base num den : Nat) (e : Int) : Nat × Nat :=
  if 0 ≤ e then (num * base.pow e.toNat, den) else (num, den * base.pow (-e).toNat)

namespace Double

/-- The least exponent, which the numbers below the normal range share. -/
def minExponent : Int := -1074

/-- The exponent of the largest finite number. -/
def maxExponent : Int := 971

/-- The number zero. -/
def zero : Double := ⟨0, minExponent⟩

instance : Inhabited Double := ⟨zero⟩

/-- The exponent `e` with `2 ^ e ≤ num / den < 2 ^ (e + 1)`, for positive `num` and `den`. -/
def binaryOrder (num den : Nat) : Int :=
  let e : Int := (Nat.log2 num : Int) - Nat.log2 den
  let (n, d) := scaleRatio 2 num den (-e)
  if d ≤ n then e else e - 1

/-- The double nearest to `num / den`, or `none` when that is past the largest one. -/
def ofRatio? (num den : Nat) : Option Double :=
  if num = 0 then some zero
  else
    let e := max (binaryOrder num den - 52) minExponent
    let (n, d) := scaleRatio 2 num den (-e)
    let m := roundDiv n d
    let x : Double := if m = Nat.pow 2 53 then ⟨Nat.pow 2 52, e + 1⟩ else ⟨m, e⟩
    if x.exponent ≤ maxExponent then some x else none

end Double

namespace Decimal

/-- The double nearest to a decimal, or `none` when that is past the largest one. A number of at
    least `10 ^ 310` is past it and one below `10 ^ (-330)` rounds to zero, whatever its digits. -/
def toDouble? (x : Decimal) : Option Double :=
  let order := (digitCount x.coefficient : Int) + x.exponent
  if x.coefficient = 0 || order < -330 then some Double.zero
  else if 310 < order then none
  else
    let (n, d) := scaleRatio 10 x.coefficient 1 x.exponent
    Double.ofRatio? n d

end Decimal

end Welle
