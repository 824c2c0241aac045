import Welle.Host.Address
import Welle.Host.Domain
import Welle.Text.Percent

set_option autoImplicit false

/-! # Hosts

The host of an identifier is a numeric address or a name. Where names are domains, a name that ends
in a number has to be an address. -/

namespace Welle

/-- A host. -/
inductive Host where
  | name (text : String)
  | bytes (address : Nat)
  | groups (address : List Nat)
deriving DecidableEq, Repr

namespace Host

/-- The text of a host. -/
def text : Host → String
  | name text => text
  | bytes address => Bytes.write address
  | groups address => "[" ++ Groups.write address ++ "]"

/-- The address between two brackets. -/
def bracketed? (cs : List Char) : Option Host :=
  if cs.getLast? = some ']' then (Groups.parse? cs.tail.dropLast).map groups else none

/-- Reads the host of a scheme whose names are domains. Escapes stand for their characters. -/
def domain? (cs : List Char) : Option Host :=
  if cs.head? = some '[' then bracketed? cs
  else do
    let labels ← Domain.labels? (Text.Percent.decode cs)
    guard (labels ≠ [[]])
    if Bytes.isMeant labels then return bytes (← Bytes.parse? labels)
    return name (Text.join "." (labels.map String.ofList))

/-- Characters that no name may have, whatever the scheme. -/
def isForbidden (c : Char) : Bool :=
  ['\x00', '\t', '\n', '\r', ' '].contains c
    || ['#', '/', ':', '<', '>', '?', '@', '[', '\\', ']', '^', '|'].contains c

/-- Reads the host of a scheme that says nothing about names. -/
def plain? (cs : List Char) : Option Host :=
  if cs.head? = some '[' then bracketed? cs
  else if cs.any isForbidden then none
  else some (name (String.ofList (Text.Percent.encode Text.Percent.isControl cs)))

end Host

end Welle
