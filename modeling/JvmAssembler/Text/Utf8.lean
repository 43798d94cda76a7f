import JvmAssembler.Text

/-!
# UTF-8

Reading text as characters. A byte that starts no well-formed character is kept as such, so that
reading never fails and loses nothing.
-/

set_option autoImplicit false

namespace JvmAssembler.Utf8

/-- What one step of reading finds: a character, or a byte that starts none. -/
inductive Rune where
  | char (c : Char)
  | stray (byte : UInt8)
deriving DecidableEq

def replacement : Char := Char.ofNat 0xFFFD

/-- The character of a rune; a stray byte counts as U+FFFD. -/
def Rune.toChar : Rune → Char
  | .char c => c
  | .stray _ => replacement

def Rune.isChar : Rune → Bool
  | .char _ => true
  | .stray _ => false

def isContinuation (b : UInt8) : Bool := 0x80 ≤ b && b < 0xC0

def payload (b : UInt8) : Nat := b.toNat % 64

/-- The character at the front of a text, if it starts with a well-formed one, and the rest. -/
def next? : Text → Option (Char × Text)
  | [] => none
  | b₀ :: t₀ =>
    if b₀ < 0x80 then some (Char.ofNat b₀.toNat, t₀)
    else if b₀ < 0xC0 then none
    else match t₀ with
      | [] => none
      | b₁ :: t₁ =>
        if !isContinuation b₁ then none
        else if b₀ < 0xE0 then
          let point := b₀.toNat % 32 * 64 + payload b₁
          if 0x80 ≤ point then some (Char.ofNat point, t₁) else none
        else match t₁ with
          | [] => none
          | b₂ :: t₂ =>
            if !isContinuation b₂ then none
            else if b₀ < 0xF0 then
              let point := b₀.toNat % 16 * 4096 + payload b₁ * 64 + payload b₂
              if 0x800 ≤ point ∧ point.isValidChar then some (Char.ofNat point, t₂) else none
            else if b₀ < 0xF8 then match t₂ with
              | [] => none
              | b₃ :: t₃ =>
                if !isContinuation b₃ then none
                else
                  let point :=
                    b₀.toNat % 8 * 262144 + payload b₁ * 4096 + payload b₂ * 64 + payload b₃
                  if 0x10000 ≤ point ∧ point.isValidChar then some (Char.ofNat point, t₃)
                  else none
            else none

/-- Folds over the runes of a text, at most `fuel` of them. -/
def foldFrom {σ : Type} (f : σ → Rune → σ) : (fuel : Nat) → σ → Text → σ
  | 0, s, _ => s
  | _ + 1, s, [] => s
  | fuel + 1, s, b :: t =>
    match next? (b :: t) with
    | some (c, rest) => foldFrom f fuel (f s (.char c)) rest
    | none => foldFrom f fuel (f s (.stray b)) t

/-- Folds over all runes of a text, from the front. Every step reads at least one byte. -/
def fold {σ : Type} (f : σ → Rune → σ) (s : σ) (t : Text) : σ := foldFrom f t.length s t

def runes (t : Text) : List Rune := (fold (fun found r => r :: found) [] t).reverse

def isValid (t : Text) : Bool := fold (fun ok r => ok && r.isChar) true t

/-- The number of runes, each stray byte counted as one. -/
def count (t : Text) : Nat := fold (fun n _ => n + 1) 0 t

/-- The characters of a text, every stray byte read as U+FFFD. -/
def chars (t : Text) : List Char := (runes t).map Rune.toChar

def encodeChar (c : Char) : Text :=
  let point := c.toNat
  if point < 0x80 then [point.toUInt8]
  else if point < 0x800 then [(0xC0 + point / 64).toUInt8, (0x80 + point % 64).toUInt8]
  else if point < 0x10000 then
    [(0xE0 + point / 4096).toUInt8, (0x80 + point / 64 % 64).toUInt8, (0x80 + point % 64).toUInt8]
  else
    [(0xF0 + point / 262144).toUInt8, (0x80 + point / 4096 % 64).toUInt8,
      (0x80 + point / 64 % 64).toUInt8, (0x80 + point % 64).toUInt8]

def encode (cs : List Char) : Text := cs.flatMap encodeChar

/-- The bytes a rune was read from. -/
def Rune.toText : Rune → Text
  | .char c => encodeChar c
  | .stray b => [b]

end JvmAssembler.Utf8
