import JvmAssembler.Text.Utf8

/-!
# Modified UTF-8

The encoding of text in a class file: UTF-16 units, each written in one to three bytes. NUL takes
two bytes, and a character beyond the basic plane takes the two units of its surrogate pair, so
that the encoding holds neither a zero byte nor a byte from 0xF0 on.
-/

set_option autoImplicit false

namespace JvmAssembler.ModifiedUtf8

/-- The bytes of one UTF-16 unit: one byte for 1 to 0x7F, two up to 0x7FF and for zero, else
three. -/
def encodeUnit (unit : Nat) : Bytes :=
  if unit = 0 then [0xC0, 0x80]
  else if unit < 0x80 then [unit.toUInt8]
  else if unit < 0x800 then [(0xC0 + unit / 64).toUInt8, (0x80 + unit % 64).toUInt8]
  else [(0xE0 + unit / 4096).toUInt8, (0x80 + unit / 64 % 64).toUInt8, (0x80 + unit % 64).toUInt8]

/-- The UTF-16 units of a character: itself, or its surrogate pair. -/
def unitsOf (c : Char) : List Nat :=
  let point := c.toNat
  if point < 0x10000 then [point]
  else [0xD800 + (point - 0x10000) / 1024, 0xDC00 + (point - 0x10000) % 1024]

def encode (t : Text) : Bytes := (Utf8.chars t).flatMap fun c => (unitsOf c).flatMap encodeUnit

/-- Why bytes are not modified UTF-8. The offset is that of the byte that starts the unit. -/
inductive DecodeError where
  | rawNul (offset : Nat)
  | malformed (offset : Nat)
deriving DecidableEq

def DecodeError.message : DecodeError → Text
  | .rawNul offset => .concat ["invalid modified UTF-8: raw NUL at ", .decimal offset]
  | .malformed offset => .concat ["invalid modified UTF-8 at ", .decimal offset]

/-- Reads units from the bytes at `offset` on; `found` holds the earlier ones, newest first. -/
def decodeUnitsFrom (offset : Nat) (found : List Nat) : Bytes → Except DecodeError (List Nat)
  | [] => .ok found.reverse
  | b₀ :: t₀ =>
    if b₀ < 0x80 then
      if b₀ = 0 then .error (.rawNul offset)
      else decodeUnitsFrom (offset + 1) (b₀.toNat :: found) t₀
    else if b₀ < 0xC0 ∨ 0xF0 ≤ b₀ then .error (.malformed offset)
    else match t₀ with
      | [] => .error (.malformed offset)
      | b₁ :: t₁ =>
        if !Utf8.isContinuation b₁ then .error (.malformed offset)
        else if b₀ < 0xE0 then
          decodeUnitsFrom (offset + 2) ((b₀.toNat % 32 * 64 + Utf8.payload b₁) :: found) t₁
        else match t₁ with
          | [] => .error (.malformed offset)
          | b₂ :: t₂ =>
            if !Utf8.isContinuation b₂ then .error (.malformed offset)
            else
              decodeUnitsFrom (offset + 3)
                ((b₀.toNat % 16 * 4096 + Utf8.payload b₁ * 64 + Utf8.payload b₂) :: found) t₂

def decodeUnits (bytes : Bytes) : Except DecodeError (List Nat) := decodeUnitsFrom 0 [] bytes

def isHigh (unit : Nat) : Bool := 0xD800 ≤ unit && unit < 0xDC00

def isLow (unit : Nat) : Bool := 0xDC00 ≤ unit && unit < 0xE000

/-- The characters of UTF-16 units behind those in `found`, newest first. A surrogate outside a
pair becomes U+FFFD. -/
def charsFrom (found : List Char) : List Nat → List Char
  | [] => found.reverse
  | [unit] => (Char.ofNat (if isHigh unit || isLow unit then 0xFFFD else unit) :: found).reverse
  | high :: low :: rest =>
    if isHigh high && isLow low then
      charsFrom (Char.ofNat (0x10000 + (high - 0xD800) * 1024 + (low - 0xDC00)) :: found) rest
    else
      charsFrom (Char.ofNat (if isHigh high || isLow high then 0xFFFD else high) :: found)
        (low :: rest)

def decode (bytes : Bytes) : Except DecodeError Text :=
  (decodeUnits bytes).map fun units => Utf8.encode (charsFrom [] units)

end JvmAssembler.ModifiedUtf8
