set_option autoImplicit false

/-! # White space

The characters with the Unicode property `White_Space`. -/

namespace Welle.Text

/-- Whether `c` is white space. The zero-width characters U+200B and U+FEFF are not. -/
def isBlank (c : Char) : Bool :=
  let n := c.toNat
  (0x9 ≤ n && n ≤ 0xD) || n == 0x20 || n == 0x85 || n == 0xA0 || n == 0x1680
    || (0x2000 ≤ n && n ≤ 0x200A) || n == 0x2028 || n == 0x2029 || n == 0x202F || n == 0x205F
    || n == 0x3000

end Welle.Text
