import Welle.Host.Mapping.Table

set_option autoImplicit false

/-! # Characters of domains

Before a domain is looked at, every character of it is replaced by its form in domains. -/

namespace Welle.Host.Mapping

/-- What replaces a character of a range at one distance. -/
def shifted? (n : Nat) : Option (List Nat) :=
  shifted.findSome? fun row =>
    match row with
    | [first, last, step, target] =>
      if first ≤ n && n ≤ last && (n - first) % step = 0 then some [target + (n - first)] else none
    | _ => none

/-- What replaces a character that has its replacement in a list. -/
def listed? (n : Nat) : Option (List Nat) :=
  listed.findSome? fun row =>
    match row with
    | first :: targets => if first ≤ n then (targets[n - first]?).map ([·]) else none
    | [] => none

/-- What replaces a character that several ones stand for. -/
def expanded? (n : Nat) : Option (List Nat) :=
  expanded.findSome? fun row =>
    match row with
    | source :: targets => if source = n then some targets else none
    | [] => none

/-- What replaces a character outside ASCII, if it is replaced. -/
def replaced? (n : Nat) : Option (List Nat) := (shifted? n).or ((listed? n).or (expanded? n))

/-- The form of a character in domains, or `none` if it must not stand in one. Of ASCII only the
    case of letters changes. -/
def form? (c : Char) : Option (List Char) :=
  let n := c.toNat
  if n < 0x80 then some [c.toLower]
  else match replaced? n with
    | some targets => some (targets.map Char.ofNat)
    | none =>
      if Text.Table.within dropped n then some []
      else if Text.Table.within refused n then none
      else some [c]

/-- Whether a character is its own form. -/
def isSettled (c : Char) : Bool := form? c = some [c]

/-- The form of a text. -/
def forms? (cs : List Char) : Option (List Char) := (cs.mapM form?).map List.flatten

end Welle.Host.Mapping
