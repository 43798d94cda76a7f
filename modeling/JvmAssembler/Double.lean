import JvmAssembler.Text.Decimal

/-!
# Double precision

Numbers with 53 significant bits. A decimal number is rounded to the nearest of them, a half to the
one with the even mantissa, and a number is written with the fewest digits that are rounded back to
it.
-/

set_option autoImplicit false

namespace JvmAssembler

inductive Double where
  | nan
  | infinity (isNegative : Bool)
  /-- `mantissa * 2 ^ exponent`, with at most 53 bits in the mantissa. -/
  | finite (isNegative : Bool) (mantissa : Nat) (exponent : Int)
deriving DecidableEq

namespace Double

/-- A quotient rounded to the nearest integer, a half to the even one. -/
def roundDiv (num den : Nat) : Nat :=
  let quotient := num / den
  let twice := 2 * (num % den)
  if twice < den then quotient
  else if den < twice then quotient + 1
  else quotient + quotient % 2

def minExponent : Int := -1074

/-- Powers of two from here on are too large. -/
def maxPower : Int := 1024

def scale (num den : Nat) (shift : Int) : Nat × Nat :=
  (num <<< shift.toNat, den <<< (-shift).toNat)

/-- The power of two that gives a quotient 53 bits before its point, or fewer where the exponent
would be below the least one. -/
def shiftOf (num den : Nat) : Int :=
  let estimate : Int := 52 - ((Nat.log2 num : Int) - Nat.log2 den)
  let (n, d) := scale num den estimate
  min (if n < d <<< 52 then estimate + 1 else estimate) (-minExponent)

/-- The number nearest to a quotient that is not 0, unless it is too large. -/
def ofQuotient? (isNegative : Bool) (num den : Nat) : Option Double :=
  let shift := shiftOf num den
  let (n, d) := scale num den shift
  let rounded := roundDiv n d
  let (mantissa, exponent) : Nat × Int :=
    if rounded = 1 <<< 53 then (1 <<< 52, 1 - shift) else (rounded, -shift)
  if maxPower ≤ exponent + Nat.log2 mantissa then none
  else some (.finite isNegative mantissa exponent)

/-- Decimal numbers whose first digit is this far from the point are too large or too small. -/
def maxDecimalPower : Int := 400

/-- The number nearest to a decimal number, unless it is too large. -/
def ofDecimal? (d : Decimal) : Option Double :=
  let top := d.exponent + (Text.decimal d.digits).length
  if d.digits = 0 ∨ top < -maxDecimalPower then some (.finite d.isNegative 0 0)
  else if maxDecimalPower < top then none
  else
    ofQuotient? d.isNegative (d.digits * Nat.pow 10 d.exponent.toNat)
      (Nat.pow 10 (-d.exponent).toNat)

def ofInteger (n : Int) : Double :=
  (ofDecimal? ⟨n < 0, n.natAbs, 0⟩).getD (.infinity (n < 0))

/-- The integer that a number is cut to. What does not fit in 64 bits becomes the least integer. -/
def truncate : Double → Int
  | .nan | .infinity _ => Int64.minValue.toInt
  | .finite isNegative mantissa exponent =>
    let magnitude := mantissa <<< exponent.toNat >>> (-exponent).toNat
    let n : Int := if isNegative then -magnitude else magnitude
    if Int64.minValue.toInt ≤ n ∧ n ≤ Int64.maxValue.toInt then n else Int64.minValue.toInt

def isZero : Double → Bool
  | .finite _ mantissa _ => mantissa == 0
  | _ => false

/-! ### The fewest digits -/

/-- The numbers that are rounded to a mantissa lie around it: how far below and above it they
begin and end, in quarters of a unit, and whether the ends belong to them. -/
structure Neighbourhood where
  low : Nat
  middle : Nat
  high : Nat
  isClosed : Bool

/-- The neighbourhood of a mantissa. Below a power of two the next number is closer. -/
def neighbourhood (mantissa : Nat) (exponent : Int) : Neighbourhood :=
  let below := if mantissa = 1 <<< 52 ∧ minExponent < exponent then 1 else 2
  ⟨4 * mantissa - below, 4 * mantissa, 4 * mantissa + 2, mantissa % 2 == 0⟩

/-- Whether a candidate lies in the neighbourhood, when a quarter of a unit is so large on its
scale. -/
def Neighbourhood.contains (a : Neighbourhood) (unit candidate : Nat) : Bool :=
  if a.isClosed then a.low * unit ≤ candidate && candidate ≤ a.high * unit
  else a.low * unit < candidate && candidate < a.high * unit

/-- The number of digits before the point of `num / den`; not above 0 when it is less than 1. -/
def decimalPlace (num den : Nat) : Int :=
  let estimate := ((Nat.log2 num : Int) - Nat.log2 den) * 30103 / 100000
  let places := [estimate - 1, estimate, estimate + 1, estimate + 2]
  (places.find? fun k => num * Nat.pow 10 (-k).toNat < den * Nat.pow 10 k.toNat).getD
    (estimate + 3)

/-- The best decimal number with so many digits, if one is near enough: the nearest, of two equally
near ones the even one. -/
def withDigits? (a : Neighbourhood) (num den : Nat) (place : Int) (digits : Nat) :
    Option (Nat × Int) :=
  let exponent := place - digits
  let unit := num * Nat.pow 10 (-exponent).toNat
  let step := den * Nat.pow 10 exponent.toNat
  let value := a.middle * unit
  let below := value / step
  let isNear (candidate : Nat) : Bool := a.contains unit (candidate * step)
  let nearest := roundDiv value step
  let order := if nearest = below then [below, below + 1] else [below + 1, below]
  (order.find? isNear).map fun candidate => (candidate, exponent)

/-- The decimal number with the fewest digits that is rounded to a number; of several the
nearest. -/
def shortest (isNegative : Bool) (mantissa : Nat) (exponent : Int) : Decimal :=
  if mantissa = 0 then ⟨isNegative, 0, 0⟩
  else
    let a := neighbourhood mantissa exponent
    let num := 1 <<< (exponent - 2).toNat
    let den := 1 <<< (2 - exponent).toNat
    let place := decimalPlace (a.middle * num) den
    match (List.range 17).findSome? fun n => withDigits? a num den place (n + 1) with
    | some (digits, exponent) => ⟨isNegative, digits, exponent⟩
    | none => ⟨isNegative, mantissa, exponent⟩

def text : Double → Text
  | .nan => "NaN"
  | .infinity isNegative => if isNegative then "-Inf" else "+Inf"
  | .finite isNegative mantissa exponent => (shortest isNegative mantissa exponent).text

end Double

end JvmAssembler
