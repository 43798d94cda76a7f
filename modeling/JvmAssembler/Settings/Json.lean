import JvmAssembler.Settings.Value
import JvmAssembler.Text.Utf8

/-!
# Settings in JSON

A file is one object, or nothing but `null`. All numbers are in double precision. Of members with
one name the last counts, and stray bytes of strings become U+FFFD.
-/

set_option autoImplicit false

namespace JvmAssembler.Json

open Settings (Value Fields)

/-- How deep objects and arrays may be nested. -/
def maxDepth : Nat := 10000

def isSpace (b : UInt8) : Bool := b == 0x20 || b == 0x09 || b == 0x0A || b == 0x0D

def skipSpace (t : Text) : Text := t.dropWhile isSpace

/-! ### Strings -/

def escapes : List (UInt8 × UInt8) :=
  [(0x22, 0x22), (0x5C, 0x5C), (0x2F, 0x2F), (0x62, 0x08), (0x66, 0x0C), (0x6E, 0x0A), (0x72, 0x0D),
   (0x74, 0x09)]

def unit? (t : Text) : Option (Nat × Text) :=
  let digits := t.take 4
  if digits.length = 4 ∧ !digits.contains Literal.underscore then
    (Literal.digits? 16 digits).map fun n => (n, t.drop 4)
  else none

/-- The second half of a character, which is written as another escape, and the rest. -/
def lowUnit? : Text → Option (Nat × Text)
  | 0x5C :: 0x75 :: t =>
    match unit? t with
    | some (low, rest) => if 0xDC00 ≤ low ∧ low < 0xE000 then some (low, rest) else none
    | none => none
  | _ => none

/-- The character of a unit, and the rest after its second half. Half a character is U+FFFD. -/
def unitChar (unit : Nat) (rest : Text) : Char × Text :=
  if unit < 0xD800 ∨ 0xE000 ≤ unit then (Char.ofNat unit, rest)
  else if unit < 0xDC00 then
    match lowUnit? rest with
    | some (low, rest) =>
      (Char.ofNat (0x10000 + (unit - 0xD800) * 0x400 + (low - 0xDC00)), rest)
    | none => (Utf8.replacement, rest)
  else (Utf8.replacement, rest)

def escape? : Text → Option (Text × Text)
  | 0x75 :: t =>
    match unit? t with
    | some (unit, rest) =>
      let (c, rest) := unitChar unit rest
      some (Utf8.encodeChar c, rest)
    | none => none
  | b :: t => (escapes.lookup b).map fun c => ([c], t)
  | [] => none

/-- The bytes of a string after its first quote, newest first before, and what follows it. -/
def stringFrom? : (fuel : Nat) → (found : Text) → Text → Option (Text × Text)
  | 0, _, _ | _, _, [] => none
  | fuel + 1, found, b :: t =>
    if b = 0x22 then some (found.reverse, t)
    else if b < 0x20 then none
    else if b = 0x5C then
      match escape? t with
      | some (bytes, rest) => stringFrom? fuel (bytes.reverse ++ found) rest
      | none => none
    else stringFrom? fuel (b :: found) t

def string? (t : Text) : Option (Text × Text) :=
  (stringFrom? (t.length + 1) [] t).map fun (bytes, rest) =>
    (Utf8.encode (Utf8.chars bytes), rest)

/-! ### Numbers -/

def digits? (t : Text) : Option (Text × Text) :=
  let digits := t.takeWhile Literal.isDigit
  if digits = [] then none else some (digits, t.drop digits.length)

/-- The digits before the point: a single 0, or any that start with another one. -/
def whole? : Text → Option (Text × Text)
  | 0x30 :: rest => some ([0x30], rest)
  | t => digits? t

def sign (allowed : Text) : Text → Text × Text
  | b :: rest => if allowed.contains b then ([b], rest) else ([], b :: rest)
  | [] => ([], [])

def fraction? : Text → Option (Text × Text)
  | 0x2E :: t => (digits? t).map fun (digits, rest) => (0x2E :: digits, rest)
  | t => some ([], t)

def exponent? : Text → Option (Text × Text)
  | b :: t =>
    if Literal.lower b = 0x65 then
      let (front, t) := sign [0x2B, 0x2D] t
      (digits? t).map fun (digits, rest) => (b :: front ++ digits, rest)
    else some ([], b :: t)
  | [] => some ([], [])

def number? (t : Text) : Option (Value × Text) := do
  let (front, t) := sign [0x2D] t
  let (whole, t) ← whole? t
  let (fraction, t) ← fraction? t
  let (exponent, t) ← exponent? t
  let decimal ← Decimal.parse? (front ++ whole ++ fraction ++ exponent)
  let double ← Double.ofDecimal? decimal
  pure (.double double, t)

/-! ### Values -/

def words : List (Text × Value) := [("true", .bool true), ("false", .bool false), ("null", .null)]

def word? (t : Text) : Option (Value × Text) :=
  (words.find? fun w => Text.startsWith w.1 t).map fun w => (w.2, t.drop w.1.length)

mutual

/-- A value in front, inside of so many objects and arrays, and the rest. -/
def value? : (fuel depth : Nat) → Text → Option (Value × Text)
  | 0, _, _ | _, _, [] => none
  | fuel + 1, depth, b :: t =>
    if b = 0x22 then (string? t).map fun (s, rest) => (.text s, rest)
    else if b = 0x7B then
      if maxDepth ≤ depth then none
      else
        match skipSpace t with
        | 0x7D :: rest => some (.map [], rest)
        | t => members? fuel (depth + 1) [] t
    else if b = 0x5B then
      if maxDepth ≤ depth then none
      else
        match skipSpace t with
        | 0x5D :: rest => some (.list, rest)
        | t => items? fuel (depth + 1) t
    else if b = 0x2D ∨ Literal.isDigit b then number? (b :: t)
    else word? (b :: t)

def items? : (fuel depth : Nat) → Text → Option (Value × Text)
  | 0, _, _ => none
  | fuel + 1, depth, t =>
    match value? fuel depth t with
    | none => none
    | some (_, rest) =>
      match skipSpace rest with
      | 0x5D :: rest => some (.list, rest)
      | 0x2C :: rest => items? fuel depth (skipSpace rest)
      | _ => none

def members? : (fuel depth : Nat) → (found : Fields) → Text → Option (Value × Text)
  | fuel + 1, depth, found, 0x22 :: t =>
    match string? t with
    | none => none
    | some (name, rest) =>
      match skipSpace rest with
      | 0x3A :: rest =>
        match value? fuel depth (skipSpace rest) with
        | none => none
        | some (value, rest) =>
          let found := Fields.set found name value
          match skipSpace rest with
          | 0x7D :: rest => some (.map found, rest)
          | 0x2C :: rest => members? fuel depth found (skipSpace rest)
          | _ => none
      | _ => none
  | _, _, _, _ => none

end

def read? (file : Bytes) : Option Fields :=
  match value? (2 * file.length + 2) 0 (skipSpace file) with
  | some (value, rest) =>
    if skipSpace rest ≠ [] then none
    else
      match value with
      | .map fields => some fields
      | .null => some []
      | _ => none
  | none => none

end JvmAssembler.Json
