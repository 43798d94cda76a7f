import JvmAssembler.BigEndian

/-!
# Digest

The SHA-256 digest that identifies a stored class file by its bytes.
-/

set_option autoImplicit false

namespace JvmAssembler.Digest

def roundConstants : Array UInt32 :=
  #[0x428a2f98, 0x71374491, 0xb5c0fbcf, 0xe9b5dba5, 0x3956c25b, 0x59f111f1, 0x923f82a4, 0xab1c5ed5,
    0xd807aa98, 0x12835b01, 0x243185be, 0x550c7dc3, 0x72be5d74, 0x80deb1fe, 0x9bdc06a7, 0xc19bf174,
    0xe49b69c1, 0xefbe4786, 0x0fc19dc6, 0x240ca1cc, 0x2de92c6f, 0x4a7484aa, 0x5cb0a9dc, 0x76f988da,
    0x983e5152, 0xa831c66d, 0xb00327c8, 0xbf597fc7, 0xc6e00bf3, 0xd5a79147, 0x06ca6351, 0x14292967,
    0x27b70a85, 0x2e1b2138, 0x4d2c6dfc, 0x53380d13, 0x650a7354, 0x766a0abb, 0x81c2c92e, 0x92722c85,
    0xa2bfe8a1, 0xa81a664b, 0xc24b8b70, 0xc76c51a3, 0xd192e819, 0xd6990624, 0xf40e3585, 0x106aa070,
    0x19a4c116, 0x1e376c08, 0x2748774c, 0x34b0bcb5, 0x391c0cb3, 0x4ed8aa4a, 0x5b9cca4f, 0x682e6ff3,
    0x748f82ee, 0x78a5636f, 0x84c87814, 0x8cc70208, 0x90befffa, 0xa4506ceb, 0xbef9a3f7, 0xc67178f2]

/-- The eight words that a digest is computed in. -/
structure State where
  a : UInt32
  b : UInt32
  c : UInt32
  d : UInt32
  e : UInt32
  f : UInt32
  g : UInt32
  h : UInt32

def State.initial : State :=
  ⟨0x6a09e667, 0xbb67ae85, 0x3c6ef372, 0xa54ff53a, 0x510e527f, 0x9b05688c, 0x1f83d9ab, 0x5be0cd19⟩

/-- A word turned right by a number of bits between 1 and 31. -/
def rotate (x n : UInt32) : UInt32 := (x >>> n) ||| (x <<< (32 - n))

/-- One round, with its schedule word and constant added up. -/
def State.round (s : State) (word : UInt32) : State :=
  let choice := (s.e &&& s.f) ^^^ ((~~~s.e) &&& s.g)
  let majority := (s.a &&& s.b) ^^^ (s.a &&& s.c) ^^^ (s.b &&& s.c)
  let t₁ := s.h + (rotate s.e 6 ^^^ rotate s.e 11 ^^^ rotate s.e 25) + choice + word
  let t₂ := (rotate s.a 2 ^^^ rotate s.a 13 ^^^ rotate s.a 22) + majority
  ⟨t₁ + t₂, s.a, s.b, s.c, s.d + t₁, s.e, s.f, s.g⟩

def State.add (s t : State) : State :=
  ⟨s.a + t.a, s.b + t.b, s.c + t.c, s.d + t.d, s.e + t.e, s.f + t.f, s.g + t.g, s.h + t.h⟩

/-- The schedule word at position `i`, from the earlier ones. -/
def extend (words : Array UInt32) (i : Nat) : Array UInt32 :=
  let w₂ := words.getD (i - 2) 0
  let w₁₅ := words.getD (i - 15) 0
  let s₀ := rotate w₁₅ 7 ^^^ rotate w₁₅ 18 ^^^ (w₁₅ >>> 3)
  let s₁ := rotate w₂ 17 ^^^ rotate w₂ 19 ^^^ (w₂ >>> 10)
  words.push (words.getD (i - 16) 0 + s₀ + words.getD (i - 7) 0 + s₁)

def schedule (block : Array UInt32) : Array UInt32 :=
  (List.range' 16 48).foldl extend block

def State.absorb (s : State) (block : Array UInt32) : State :=
  let words := schedule block
  let rounds := (List.range 64).foldl
    (fun t i => t.round (words.getD i 0 + roundConstants.getD i 0)) s
  s.add rounds

/-- A message with its padding: a one bit, zeros, and its length in bits, up to whole blocks. -/
def padded (message : Bytes) : Bytes :=
  let zeros := (119 - message.length % 64) % 64
  message ++ 0x80 :: (List.replicate zeros 0 ++ BigEndian.bytes 8 (message.length * 8))

/-- The words of a padded message, four bytes each, behind those found before. -/
def wordsFrom (found : Array UInt32) : Bytes → Array UInt32
  | b₀ :: b₁ :: b₂ :: b₃ :: rest =>
    wordsFrom (found.push (BigEndian.value [b₀, b₁, b₂, b₃]).toUInt32) rest
  | _ => found

def sha256 (message : Bytes) : Bytes :=
  let words := wordsFrom #[] (padded message)
  let s := (List.range (words.size / 16)).foldl
    (fun (s : State) i => s.absorb (words.extract (16 * i) (16 * i + 16))) State.initial
  [s.a, s.b, s.c, s.d, s.e, s.f, s.g, s.h].flatMap BigEndian.u4

def hex (message : Bytes) : Text := Text.hexBytes (sha256 message)

end JvmAssembler.Digest
