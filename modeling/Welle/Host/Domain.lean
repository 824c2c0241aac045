import Welle.Host.Composite
import Welle.Host.Direction
import Welle.Host.Joining
import Welle.Host.Mapping
import Welle.Host.Punycode
import Welle.Text.Measure

set_option autoImplicit false

/-! # Domains

A domain is a text of labels with dots between them. Its labels may have characters of any script,
but its standard form is in ASCII: every character in its form for domains, and a label with
characters outside ASCII in Punycode behind `xn--`. -/

namespace Welle.Host.Domain

/-- What stands in front of Punycode. -/
def mark : List Char := ['x', 'n', '-', '-']

/-- Whether a text has nothing outside ASCII. -/
def isAscii (cs : List Char) : Bool := cs.all Punycode.isAscii

/-- Characters of ASCII that no domain may have. -/
def isForbidden (c : Char) : Bool :=
  c.toNat ≤ 0x20 || c.toNat = 0x7F
    || ['#', '%', '/', ':', '<', '>', '?', '@', '[', '\\', ']', '^', '|'].contains c

/-- Whether a label with characters outside ASCII may stand in a domain. -/
def isSound (label : List Char) : Bool :=
  !label.head?.any Mark.isMark && label.all Mapping.isSettled && Joining.areUseful [] label
    && !mark.isPrefixOf label

/-- What a text in Punycode stands for. It has to need Punycode and to be in its normal form. -/
def unpack? (text : List Char) : Option (List Char) := do
  let label ← Punycode.decode? text
  guard (!isAscii label && Composite.normalize label = label)
  return label

/-- A label in its two forms: as it is meant and in ASCII. -/
structure Label where
  plain : List Char
  ascii : List Char
deriving DecidableEq, Repr

/-- The label that a text stands for, if it may stand in a domain. -/
def label? (text : List Char) : Option Label :=
  if isAscii text then
    if mark.isPrefixOf text then do
      let plain ← unpack? (text.drop mark.length)
      if isSound plain then return ⟨plain, text⟩ else none
    else some ⟨text, text⟩
  else if isSound text then some ⟨text, mark ++ Punycode.encode text⟩
  else none

/-- The labels of a domain in ASCII. -/
def labels? (text : List Char) : Option (List (List Char)) := do
  let mapped ← Mapping.forms? text
  let labels ← ((Composite.normalize mapped).splitOn '.').mapM label?
  let ascii := labels.map Label.ascii
  guard (Direction.areOrderly (labels.map Label.plain) && !ascii.any (·.any isForbidden))
  return ascii

end Welle.Host.Domain
