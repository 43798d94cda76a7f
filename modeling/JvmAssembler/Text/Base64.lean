import JvmAssembler.Text.Literal

/-!
# Base 64

Bytes written as letters, digits and two signs of six bits each, four for three bytes. The last four
may end in one or two equals signs. Line ends count for nothing.
-/

set_option autoImplicit false

namespace JvmAssembler.Base64

def value? (b : UInt8) : Option Nat :=
  if 0x41 ≤ b ∧ b ≤ 0x5A then some (b.toNat - 0x41)
  else if 0x61 ≤ b ∧ b ≤ 0x7A then some (b.toNat - 0x61 + 26)
  else if Literal.isDigit b then some (b.toNat - 0x30 + 52)
  else if b = 0x2B then some 62
  else if b = 0x2F then some 63
  else none

/-- The bytes of signs, four at a time. -/
def decodeSigns (found : Bytes) : Text → Option Bytes
  | [] => some found.reverse
  | a :: b :: c :: d :: rest =>
    match value? a, value? b, value? c, value? d with
    | some a, some b, some c, some d =>
      let first := (a * 4 + b / 16).toUInt8
      let second := (b % 16 * 16 + c / 4).toUInt8
      let third := (c % 4 * 64 + d).toUInt8
      decodeSigns (third :: second :: first :: found) rest
    | some a, some b, some c, none =>
      if d = 0x3D ∧ rest = [] then
        some ((b % 16 * 16 + c / 4).toUInt8 :: (a * 4 + b / 16).toUInt8 :: found).reverse
      else none
    | some a, some b, none, none =>
      if c = 0x3D ∧ d = 0x3D ∧ rest = [] then
        some ((a * 4 + b / 16).toUInt8 :: found).reverse
      else none
    | _, _, _, _ => none
  | _ => none

def decode? (t : Text) : Option Bytes := decodeSigns [] (t.filter fun b => b ≠ 0x0A && b ≠ 0x0D)

end JvmAssembler.Base64
