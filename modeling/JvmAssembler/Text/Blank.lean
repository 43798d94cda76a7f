import JvmAssembler.Text.Utf8

/-!
# Blank characters

The characters with the Unicode property White_Space, and text without those at its ends.
-/

set_option autoImplicit false

namespace JvmAssembler.Blank

def isBlank (c : Char) : Bool :=
  let point := c.toNat
  (0x09 ≤ point && point ≤ 0x0D) || point == 0x20 || point == 0x85 || point == 0xA0
    || point == 0x1680 || (0x2000 ≤ point && point ≤ 0x200A) || point == 0x2028 || point == 0x2029
    || point == 0x202F || point == 0x205F || point == 0x3000

/-- Whether a rune is white space; a stray byte is not. -/
def isBlankRune : Utf8.Rune → Bool
  | .char c => isBlank c
  | .stray _ => false

def trim (t : Text) : Text :=
  let front := (Utf8.runes t).dropWhile isBlankRune
  (front.reverse.dropWhile isBlankRune).reverse.flatMap Utf8.Rune.toText

end JvmAssembler.Blank
