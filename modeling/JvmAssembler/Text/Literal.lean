import JvmAssembler.Text

/-!
# Literals

Integers as programmers write them: a sign, a mark for the base, and underscores between digits. And
the spellings of the two truth values.
-/

set_option autoImplicit false

namespace JvmAssembler.Literal

def isDigit (b : UInt8) : Bool := 0x30 ≤ b && b ≤ 0x39

/-- The lower-case form of an ASCII letter; any other byte stays. -/
def lower (b : UInt8) : UInt8 := if 0x41 ≤ b ∧ b ≤ 0x5A then b + 0x20 else b

def upper (b : UInt8) : UInt8 := if 0x61 ≤ b ∧ b ≤ 0x7A then b - 0x20 else b

def underscore : UInt8 := 0x5F

/-- The value of a digit; letters go on after 9. -/
def digitValue? (b : UInt8) : Option Nat :=
  if isDigit b then some (b.toNat - 0x30)
  else if 0x61 ≤ lower b ∧ lower b ≤ 0x7A then some ((lower b).toNat - 0x61 + 10)
  else none

/-- The value of digits in a base. Underscores count for nothing. -/
def digits? (base : Nat) (t : Text) : Option Nat :=
  t.foldl
    (fun value b =>
      if b = underscore then value
      else match value, digitValue? b with
        | some n, some d => if d < base then some (n * base + d) else none
        | _, _ => none)
    (some 0)

def markedBase? (b : UInt8) : Option Nat :=
  if lower b = 0x62 then some 2
  else if lower b = 0x6F then some 8
  else if lower b = 0x78 then some 16
  else none

/-- What stands before a byte, as far as underscores care. -/
inductive Before where
  | start
  | digit
  | underscore
  | other
deriving DecidableEq

/-- One step of looking at underscores; `none` when one is misplaced. -/
def underscoreStep (isHex : Bool) (before : Option Before) (b : UInt8) : Option Before :=
  match before with
  | none => none
  | some before =>
    if isDigit b ∨ (isHex ∧ 0x61 ≤ lower b ∧ lower b ≤ 0x66) then some .digit
    else if b = underscore then if before = .digit then some .underscore else none
    else if before = .underscore then none
    else some .other

/-- Whether every underscore stands between digits. A base mark counts as a digit. -/
def underscoresFit (t : Text) : Bool :=
  let (isHex, front, body) := match t with
    | 0x30 :: mark :: rest =>
      match markedBase? mark with
      | some base => (base == 16, Before.digit, rest)
      | none => (false, .start, t)
    | _ => (false, .start, t)
  match body.foldl (underscoreStep isHex) (some front) with
  | none | some .underscore => false
  | some _ => true

/-- An unsigned integer. A leading 0 makes it octal unless a mark for another base follows. -/
def natural? (t : Text) : Option Nat :=
  let value := match t with
    | [] => none
    | 0x30 :: rest =>
      match rest with
      | mark :: digit :: more =>
        match markedBase? mark with
        | some base => digits? base (digit :: more)
        | none => digits? 8 rest
      | _ => digits? 8 rest
    | _ => digits? 10 t
  if t.contains underscore ∧ !underscoresFit t then none else value

/-- An integer with a sign in front or not, in 64 bits. -/
def integer? (t : Text) : Option Int :=
  let (isNegative, digits) := match t with
    | 0x2D :: rest => (true, rest)
    | 0x2B :: rest => (false, rest)
    | _ => (false, t)
  match natural? digits with
  | none => none
  | some n =>
    let value : Int := if isNegative then -(n : Int) else n
    if Int64.minValue.toInt ≤ value ∧ value ≤ Int64.maxValue.toInt then some value else none

def trueSpellings : List Text := ["1", "t", "T", "TRUE", "true", "True"]

def falseSpellings : List Text := ["0", "f", "F", "FALSE", "false", "False"]

def bool? (t : Text) : Option Bool :=
  if trueSpellings.contains t then some true
  else if falseSpellings.contains t then some false
  else none

end JvmAssembler.Literal
