import JvmAssembler.Text.Literal

/-!
# Decimal numbers

Numbers with a fraction or an exponent, read exactly and written without an exponent.
-/

set_option autoImplicit false

namespace JvmAssembler

/-- A decimal number: a sign, and digits shifted by a power of ten. -/
structure Decimal where
  isNegative : Bool
  digits : Nat
  exponent : Int
deriving DecidableEq

namespace Decimal

def stripZeros : (fuel : Nat) → Decimal → Decimal
  | 0, d => d
  | fuel + 1, d =>
    if d.digits ≠ 0 ∧ d.digits % 10 = 0 then
      stripZeros fuel { d with digits := d.digits / 10, exponent := d.exponent + 1 }
    else d

/-- A number without an exponent and without zeros at the end of its fraction. -/
def text (d : Decimal) : Text :=
  let sign : Text := if d.isNegative then [0x2D] else []
  if d.digits = 0 then sign ++ [0x30]
  else
    let d := stripZeros (Nat.log2 d.digits) d
    let digits := Text.decimal d.digits
    if 0 ≤ d.exponent then sign ++ digits ++ List.replicate d.exponent.toNat 0x30
    else
      let places := (-d.exponent).toNat
      let padded := List.replicate (places + 1 - digits.length) 0x30 ++ digits
      sign ++ padded.take (padded.length - places) ++ 0x2E :: padded.drop (padded.length - places)

def isDigitOrUnderscore (b : UInt8) : Bool := Literal.isDigit b || b == Literal.underscore

def spanDigits (t : Text) : Text × Text :=
  (t.takeWhile isDigitOrUnderscore, t.dropWhile isDigitOrUnderscore)

def spanSign : Text → Bool × Text
  | 0x2D :: rest => (true, rest)
  | 0x2B :: rest => (false, rest)
  | t => (false, t)

def exponent? : Text → Option Int
  | [] => some 0
  | b :: t =>
    let (isNegative, digits) := spanSign t
    if Literal.lower b ≠ 0x65 ∨ !(digits.head?.map Literal.isDigit).getD false
        ∨ !digits.all isDigitOrUnderscore then none
    else (Literal.digits? 10 digits).map fun (n : Nat) => if isNegative then -(n : Int) else n

/-- Reads a number: a sign, digits with a point in front, among or after them, and an exponent.
Underscores may stand between digits. -/
def parse? (t : Text) : Option Decimal :=
  let (isNegative, body) := spanSign t
  let (whole, rest) := spanDigits body
  let (fraction, rest) := match rest with
    | 0x2E :: rest => spanDigits rest
    | _ => ([], rest)
  if !(whole ++ fraction).any Literal.isDigit then none
  else if body.contains Literal.underscore ∧ !Literal.underscoresFit body then none
  else
    match Literal.digits? 10 (whole ++ fraction), exponent? rest with
    | some digits, some e =>
      some ⟨isNegative, digits, e - (fraction.filter Literal.isDigit).length⟩
    | _, _ => none

end Decimal

end JvmAssembler
