import Welle.Decimal.Double

set_option autoImplicit false

/-! # The shortest decimal of a double

Of all decimals that round to a given double, `Double.shortest` has the fewest digits and, among
those, lies nearest to it. The search goes through the decimal grids of one digit, two digits and so
on, and looks on each at the two neighbours of the double. `Decimal.write` lays out the digits. -/

namespace Welle

namespace Double

/-- The double and the ends of the interval of numbers that round to it, over one denominator. The
    ends belong to the interval when the significand is even. -/
structure Interval where
  lower : Nat
  value : Nat
  upper : Nat
  den : Nat
  closed : Bool

/-- The interval of a double. Below a power of two the doubles lie twice as close. -/
def interval (x : Double) : Interval :=
  let gap := if x.significand = Nat.pow 2 52 && minExponent < x.exponent then 1 else 2
  let up := Nat.pow 2 x.exponent.toNat
  { lower := (4 * x.significand - gap) * up
    value := 4 * x.significand * up
    upper := (4 * x.significand + 2) * up
    den := 4 * Nat.pow 2 (-x.exponent).toNat
    closed := x.significand % 2 = 0 }

/-- Whether `c * 10 ^ e` rounds to the double of the interval. -/
def Interval.accepts (i : Interval) (c : Nat) (e : Int) : Bool :=
  let (n, d) := scaleRatio 10 c 1 e
  if i.closed then i.lower * d ≤ n * i.den && n * i.den ≤ i.upper * d
  else i.lower * d < n * i.den && n * i.den < i.upper * d

/-- The `p` with `10 ^ (p - 1) ≤ num / den < 10 ^ p`, for positive `num` and `den`. -/
def decimalOrder (num den : Nat) : Int :=
  if den ≤ num then Decimal.digitCount (num / den)
  else 1 - (Decimal.digitCount ((den + num - 1) / num - 1) : Int)

/-- The nearer of the two neighbours on the grid of step `10 ^ e`, among those that round to the
    double; the upper one on a tie. -/
def Interval.nearestOnGrid? (i : Interval) (e : Int) : Option Decimal :=
  let (n, d) := scaleRatio 10 i.value i.den (-e)
  let c := n / d
  let nearer := if 2 * (n % d) < d then [c, c + 1] else [c + 1, c]
  (nearer.find? (i.accepts · e)).map (⟨·, e⟩)

end Double

namespace Decimal

/-- The same number without trailing zeros in the coefficient. -/
def strip (x : Decimal) : Decimal := go x.coefficient x
where
  /-- Divides by ten while that is exact, at most `fuel` times. -/
  go : Nat → Decimal → Decimal
    | 0, x => x
    | fuel + 1, x =>
      if x.coefficient ≠ 0 && x.coefficient % 10 = 0 then
        go fuel ⟨x.coefficient / 10, x.exponent + 1⟩
      else x

end Decimal

/-- The shortest decimal that rounds to a double. Seventeen digits always suffice. -/
def Double.shortest (x : Double) : Decimal :=
  if x.significand = 0 then ⟨0, 0⟩
  else
    let i := x.interval
    let order := Double.decimalOrder i.value i.den
    let found := (List.range 17).findSome? fun (n : Nat) => i.nearestOnGrid? (order - (n + 1 : Nat))
    (found.getD ⟨0, 0⟩).strip

/-! ## Layout -/

/-- Where positional notation begins and ends: the least and the greatest position of the decimal
    point, counted in digits from the first one, that is still written positionally. -/
structure Decimal.Layout where
  least : Int
  most : Int

/-- `n` zeros. -/
def Decimal.zeros (n : Nat) : String := String.ofList (List.replicate n '0')

/-- The text of a decimal: positional with at least one digit behind the point, or one digit, the
    further digits behind a point if there are any, and an exponent. -/
def Decimal.write (layout : Layout) (x : Decimal) : String :=
  if x.coefficient = 0 then "0.0"
  else
    let digits := Nat.toDigits 10 x.coefficient
    let point : Int := digits.length + x.exponent
    if layout.least ≤ point && point ≤ layout.most then
      if point ≤ 0 then "0." ++ zeros (-point).toNat ++ String.ofList digits
      else if x.exponent < 0 then
        String.ofList (digits.take point.toNat) ++ "." ++ String.ofList (digits.drop point.toNat)
      else String.ofList digits ++ zeros x.exponent.toNat ++ ".0"
    else
      let fraction := digits.drop 1
      String.ofList (digits.take 1)
        ++ (if fraction.isEmpty then "" else "." ++ String.ofList fraction)
        ++ "e" ++ toString (point - 1)

end Welle
