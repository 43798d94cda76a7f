import JvmAssembler.Settings.Value
import JvmAssembler.Settings.Yaml.Cursor
import JvmAssembler.Settings.Yaml.Timestamp
import JvmAssembler.Text.Base64

/-!
# Scalars of YAML

What a scalar stands for. A plain scalar is what it looks like: a truth value, a number, a moment,
nothing, or else a text. A tag says what it has to be.
-/

set_option autoImplicit false

namespace JvmAssembler.Yaml

open Settings (Value)

def wordValues : List (Text × Value) :=
  [("", .null), ("~", .null), ("null", .null), ("Null", .null), ("NULL", .null),
   ("true", .bool true), ("True", .bool true), ("TRUE", .bool true),
   ("false", .bool false), ("False", .bool false), ("FALSE", .bool false),
   (".nan", .double .nan), (".NaN", .double .nan), (".NAN", .double .nan),
   (".inf", .double (.infinity false)), (".Inf", .double (.infinity false)),
   (".INF", .double (.infinity false)), ("+.inf", .double (.infinity false)),
   ("+.Inf", .double (.infinity false)), ("+.INF", .double (.infinity false)),
   ("-.inf", .double (.infinity true)), ("-.Inf", .double (.infinity true)),
   ("-.INF", .double (.infinity true))]

/-- An integer without a sign that needs all 64 bits. -/
def unsigned? (t : Text) : Option Int :=
  match Literal.natural? t with
  | some n => if n < UInt64.size then some n else none
  | none => none

/-- An integer whose sign stands after the mark of its base. -/
def innerSigned? (t : Text) : Option Int :=
  let read (base : Nat) (t : Text) : Option Int :=
    let (isNegative, digits) := Decimal.spanSign t
    if digits = [] then none
    else
      match Literal.digits? base digits with
      | none => none
      | some n =>
        let value : Int := if isNegative then -(n : Int) else n
        if Int64.minValue.toInt ≤ value ∧ value ≤ Int64.maxValue.toInt then some value
        else none
  match t with
  | 0x30 :: 0x62 :: rest => read 2 rest
  | 0x30 :: 0x6F :: rest => read 8 rest
  | _ => none

def double? (t : Text) : Option Value :=
  match Decimal.parse? t with
  | some d => (Double.ofDecimal? d).map .double
  | none => none

/-- A number: an integer in any notation, or one with a fraction. Underscores count for nothing. -/
def number? (t : Text) : Option Value :=
  let plain := t.filter (· ≠ Literal.underscore)
  match Literal.integer? plain with
  | some n => some (.integer n)
  | none =>
    match unsigned? plain with
    | some n => some (.integer n)
    | none =>
      match double? plain with
      | some v => some v
      | none => (innerSigned? plain).map .integer

/-- What a plain text looks like. Only what starts like a number is one. -/
def plainValue (t : Text) (allowsMoment : Bool) : Value :=
  match wordValues.lookup t with
  | some v => v
  | none =>
    match t with
    | [] => .null
    | b :: _ =>
      let value :=
        if Literal.isDigit b ∨ b = 0x2B ∨ b = 0x2D then
          match if allowsMoment then Timestamp.read? t else none with
          | some m => some (.moment m)
          | none => number? t
        else if b = 0x2E then double? t
        else none
      value.getD (.text t)

def textTag : Text := "!!str"

def doubleTag : Text := "!!float"

def momentTag : Text := "!!timestamp"

def binaryTag : Text := "!!binary"

def mergeTag : Text := "!!merge"

def tagOf : Value → Text
  | .null => "!!null"
  | .bool _ => "!!bool"
  | .integer _ => "!!int"
  | .double _ => doubleTag
  | .moment _ => momentTag
  | .text _ => textTag
  | .list => "!!seq"
  | .map _ => "!!map"

/-- The tags that say what a scalar has to look like. -/
def strictTags : List Text := ["!!bool", "!!int", doubleTag, "!!null", momentTag]

/-- What a scalar stands for; without a tag it is plain. -/
def scalarValue (tag t : Text) : Except Flaw Value :=
  if tag = [] then .ok (plainValue t true)
  else if tag = binaryTag then
    match Base64.decode? t with
    | some bytes => .ok (.text bytes)
    | none => .error .base64
  else if !strictTags.contains tag then .ok (.text t)
  else
    let value := plainValue t (tag == momentTag)
    if tagOf value = tag then .ok value
    else
      match value with
      | .integer n =>
        if tag = doubleTag ∧ n ≤ Int64.maxValue.toInt then .ok (.double (.ofInteger n))
        else .error .badTag
      | _ => .error .badTag

end JvmAssembler.Yaml
