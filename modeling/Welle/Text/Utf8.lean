set_option autoImplicit false

/-! # UTF-8

Every text has its bytes, but not all bytes are those of a text. Bytes that are no UTF-8 read as the
replacement character, one for each longest piece that could have begun a character. -/

namespace Welle

/-- A sequence of bytes. -/
abbrev Bytes := List UInt8

namespace Text.Utf8

/-! ## Writing -/

/-- The bytes that encode a text. -/
def encode (cs : List Char) : Bytes := cs.flatMap String.utf8EncodeChar

/-! ## Reading -/

/-- What the first byte of a character says: how many bytes follow it, the range of the first of
    them, and the bits that it holds itself. -/
structure Lead where
  count : Nat
  low : Nat
  high : Nat
  bits : Nat

/-- What a byte says as the first one of a character. The ranges leave out surrogates, numbers that
    need fewer bytes, and those behind the last character. -/
def Lead.ofByte? (b : Nat) : Option Lead :=
  if b < 0x80 then some ⟨0, 0x80, 0xBF, b⟩
  else if b < 0xC2 then none
  else if b < 0xE0 then some ⟨1, 0x80, 0xBF, b - 0xC0⟩
  else if b < 0xF0 then
    some ⟨2, if b = 0xE0 then 0xA0 else 0x80, if b = 0xED then 0x9F else 0xBF, b - 0xE0⟩
  else if b < 0xF5 then
    some ⟨3, if b = 0xF0 then 0x90 else 0x80, if b = 0xF4 then 0x8F else 0xBF, b - 0xF0⟩
  else none

/-- Reads the bytes that follow the first one: the number they make, or `none` where one is missing,
    and what is left. -/
def follow : Nat → Nat → Nat → Nat → Bytes → Option Nat × Bytes
  | 0, _, _, bits, rest => (some bits, rest)
  | _ + 1, _, _, _, [] => (none, [])
  | count + 1, low, high, bits, b :: rest =>
    if low ≤ b.toNat ∧ b.toNat ≤ high then
      follow count 0x80 0xBF (bits * 64 + (b.toNat - 0x80)) rest
    else (none, b :: rest)

theorem follow_length (count low high bits : Nat) (rest : Bytes) :
    (follow count low high bits rest).2.length ≤ rest.length := by
  induction rest generalizing count low high bits with
  | nil => cases count <;> simp [follow]
  | cons b rest ih =>
    cases count with
    | zero => simp [follow]
    | succ count =>
      rw [follow]
      split
      · exact Nat.le_succ_of_le (ih ..)
      · simp

/-- The replacement character. -/
def replacement : Char := '\uFFFD'

/-- The text that bytes encode. -/
def decode : Bytes → List Char
  | [] => []
  | b :: rest =>
    match Lead.ofByte? b.toNat with
    | none => replacement :: decode rest
    | some lead =>
      let read := follow lead.count lead.low lead.high lead.bits rest
      (read.1.map Char.ofNat).getD replacement :: decode read.2
termination_by bytes => bytes.length
decreasing_by
  · simp
  · exact Nat.lt_succ_of_le (follow_length ..)

end Text.Utf8

namespace Bytes

/-- The bytes of a text. -/
def ofText (text : String) : Bytes := Text.Utf8.encode text.toList

instance : Coe String Bytes := ⟨ofText⟩

/-- The text of bytes as it is shown. Bytes that are no UTF-8 cannot be told apart in it. -/
def text (bytes : Bytes) : String := String.ofList (Text.Utf8.decode bytes)

end Bytes

end Welle
