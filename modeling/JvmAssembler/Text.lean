/-!
# Text

Text is a list of bytes. Class names, constants and messages are usually UTF-8, but nothing forces
them to be, so every rule about characters is stated on top of the bytes.
-/

set_option autoImplicit false

namespace JvmAssembler

/-- Text as it stands in files and messages: bytes, usually but not always UTF-8. -/
abbrev Text := List UInt8

/-- Raw bytes, such as a class file or the code of a method. -/
abbrev Bytes := List UInt8

namespace Text

def ofString (s : String) : Text := s.toUTF8.data.toList

instance : Coe String Text := ⟨ofString⟩

def concat (pieces : List Text) : Text := pieces.flatten

def join (separator : Text) : List Text → Text
  | [] => []
  | piece :: pieces => piece ++ pieces.flatMap (separator ++ ·)

def decimal (n : Nat) : Text := (Nat.toDigits 10 n).map fun c => c.toNat.toUInt8

def signed : Int → Text
  | .ofNat n => decimal n
  | .negSucc n => 0x2d :: decimal (n + 1)

def hexDigit (n : Nat) : UInt8 := if n < 10 then (48 + n).toUInt8 else (87 + n).toUInt8

/-- The last `width` hexadecimal digits of a number, leading zeros included. -/
def hex : (width : Nat) → Nat → Text
  | 0, _ => []
  | width + 1, n => hex width (n / 16) ++ [hexDigit (n % 16)]

def hexBytes (bytes : Bytes) : Text := bytes.flatMap fun b => hex 2 b.toNat

/-- The parts between the separators; one part more than there are separators. -/
def splitOn (separator : UInt8) (t : Text) : List Text :=
  let last := t.foldl
    (fun (state : List Text × Text) b =>
      if b = separator then (state.2.reverse :: state.1, []) else (state.1, b :: state.2))
    ([], [])
  (last.2.reverse :: last.1).reverse

/-- Whether the second text starts with the first. -/
def startsWith (front t : Text) : Bool := front.isPrefixOf t

end Text

end JvmAssembler
