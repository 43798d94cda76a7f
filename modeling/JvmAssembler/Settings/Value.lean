import JvmAssembler.Double
import JvmAssembler.Moment

/-!
# Values of settings

What a settings file can say about a key, and how a value is understood as a text, an integer or a
truth value.
-/

set_option autoImplicit false

namespace JvmAssembler.Settings

inductive Value where
  | null
  | bool (b : Bool)
  | integer (n : Int)
  | double (d : Double)
  | moment (m : Moment)
  | text (t : Text)
  | list
  | map (entries : List (Text × Value))

namespace Value

def isNull : Value → Bool
  | .null => true
  | _ => false

/-- A value as text; collections have none. -/
def toText : Value → Text
  | .bool true => "true"
  | .bool false => "false"
  | .integer n => .signed n
  | .double d => d.text
  | .moment m => m.text
  | .text t => t
  | .null | .list | .map _ => []

/-- Looks for a decimal point with nothing but zeros after it, from the end; the bytes in front of
it. -/
def beforeZeroFraction? (sawZero : Bool) : Text → Option Text
  | [] => none
  | b :: before =>
    if b = 0x30 then beforeZeroFraction? true before
    else if b = 0x2E then if sawZero then some before else beforeZeroFraction? sawZero before
    else none

def withoutZeroFraction (t : Text) : Text :=
  match beforeZeroFraction? false t.reverse with
  | some before => before.reverse
  | none => t

/-- A value as a 64-bit integer; what is none counts as 0. -/
def toInteger : Value → Int
  | .bool b => if b then 1 else 0
  | .integer n => Int.bmod n UInt64.size
  | .double d => d.truncate
  | .text t => (Literal.integer? (withoutZeroFraction t)).getD 0
  | .null | .moment _ | .list | .map _ => 0

/-- A value as a truth value; what is none counts as false. -/
def toBool : Value → Bool
  | .bool b => b
  | .integer n => n ≠ 0
  | .double d => !d.isZero
  | .text t => (Literal.bool? t).getD false
  | .null | .moment _ | .list | .map _ => false

end Value

/-- The entries of a map; every key is there once. -/
abbrev Fields := List (Text × Value)

namespace Fields

def set (fields : Fields) (key : Text) (value : Value) : Fields :=
  (fields.filter fun f => f.1 ≠ key).concat (key, value)

end Fields

end JvmAssembler.Settings
