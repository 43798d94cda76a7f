import JvmAssembler.Text

/-!
# Big-endian numbers

Class files hold every number with its most significant byte first.
-/

set_option autoImplicit false

namespace JvmAssembler.BigEndian

/-- The low `width` bytes of a number, most significant first. -/
def bytes : (width : Nat) → Nat → Bytes
  | 0, _ => []
  | width + 1, n => bytes width (n / 256) ++ [n.toUInt8]

/-- The number that bytes write, most significant first. -/
def value (bs : Bytes) : Nat := bs.foldl (fun n b => n * 256 + b.toNat) 0

def u2 (n : UInt16) : Bytes := bytes 2 n.toNat

def u4 (n : UInt32) : Bytes := bytes 4 n.toNat

end JvmAssembler.BigEndian
