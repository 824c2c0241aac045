import Welle.Text.Digit
import Welle.Text.Utf8

set_option autoImplicit false

/-! # Percent escapes

A byte that may not stand for itself is written as a percent sign and two hexadecimal digits. So is
every byte of a character outside ASCII, and every byte that belongs to no character. -/

namespace Welle.Text.Percent

/-- The hexadecimal digit of a number below sixteen, in upper case. -/
def digit (n : Nat) : Char := if n < 10 then Char.ofNat (48 + n) else Char.ofNat (55 + n)

/-- The escape of a byte. -/
def escape (byte : UInt8) : List Char := ['%', digit (byte.toNat / 16), digit (byte.toNat % 16)]

/-- Control characters of ASCII. They are escaped everywhere. -/
def isControl (c : Char) : Bool := c.toNat < 0x20 || c.toNat = 0x7F

/-- The text of bytes, in which characters of a class and all bytes outside ASCII are escaped. -/
def encodeBytes (escaped : Char → Bool) (bytes : Bytes) : List Char :=
  bytes.flatMap fun byte =>
    let c := Char.ofNat byte.toNat
    if escaped c || 0x80 ≤ c.toNat then escape byte else [c]

/-- The text with the characters of a class, and all outside ASCII, escaped. -/
def encode (escaped : Char → Bool) (cs : List Char) : List Char :=
  encodeBytes escaped (Utf8.encode cs)

/-- The bytes of a text, an escape being the byte that it stands for. A percent sign without two
    digits stands for itself. -/
def bytes : List Char → Bytes
  | [] => []
  | '%' :: a :: b :: rest =>
    match digitValue? a, digitValue? b with
    | some high, some low => UInt8.ofNat (high * 16 + low) :: bytes rest
    | _, _ => 37 :: bytes (a :: b :: rest)
  | c :: rest => String.utf8EncodeChar c ++ bytes rest

/-- The text without its escapes. -/
def decode (cs : List Char) : List Char := Utf8.decode (bytes cs)

end Welle.Text.Percent
