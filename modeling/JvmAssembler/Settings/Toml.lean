import JvmAssembler.Settings.Toml.Tables

/-!
# Settings in TOML

A file has lines with a key and a value, and lines that open a table, to which the keys after it
belong. Values are scalars, lists and tables in braces.
-/

set_option autoImplicit false

namespace JvmAssembler.Toml

open Settings (Value Fields)

/-! ### Values under keys with dots -/

/-- Sets the value of a key with dots. What lies inside of a list of tables is not kept. -/
def put (value : Value) : List Text → Fields → Fields
  | [], fields => fields
  | [name], fields => fields.set name value
  | name :: path, fields =>
    match fields.lookup name with
    | some (.map inner) => fields.set name (.map (put value path inner))
    | some .list => fields
    | _ => fields.set name (.map (put value path []))

def ensure : List Text → Fields → Fields
  | [], fields => fields
  | name :: path, fields =>
    match fields.lookup name with
    | some (.map inner) => fields.set name (.map (ensure path inner))
    | some .list => fields
    | _ => fields.set name (.map (ensure path []))

/-! ### Gaps -/

def skipBlanks (t : Text) : Text := t.dropWhile isBlank

def skipComment (t : Text) : Except Flaw Text :=
  match t with
  | 0x23 :: rest =>
    let line := rest.takeWhile (· ≠ 0x0A)
    let after := rest.drop line.length
    let body := if after ≠ [] ∧ line.getLast? = some 0x0D then line.dropLast else line
    if isClean body ∧ !body.contains 0x0D then .ok after else .error .badCharacter
  | _ => .ok t

def skipLineEnd : Text → Except Flaw Text
  | 0x0A :: rest => .ok rest
  | 0x0D :: 0x0A :: rest => .ok rest
  | _ => .error .badLine

/-- The rest after blanks, comments and line ends. -/
def skipGaps : (fuel : Nat) → Text → Except Flaw Text
  | 0, t => .ok t
  | fuel + 1, t => do
    let t ← skipComment (skipBlanks t)
    if t.head? = some 0x0A ∨ t.head? = some 0x0D then skipGaps fuel (← skipLineEnd t)
    else pure t

/-! ### Keys -/

def isKeyByte (b : UInt8) : Bool :=
  Literal.isDigit b || (0x61 ≤ Literal.lower b && Literal.lower b ≤ 0x7A) || b == 0x2D || b == 0x5F

def keyPart (t : Text) : Except Flaw (Text × Text) :=
  match t with
  | [] => .error .badKey
  | b :: _ =>
    if b = 0x22 ∨ b = 0x27 then shortString t
    else
      let part := t.takeWhile isKeyByte
      if part = [] then .error .badKey else .ok (part, t.drop part.length)

/-- The parts of a key after the first, newest first before, and the rest. -/
def keyParts : (fuel : Nat) → (found : List Text) → Text → Except Flaw (List Text × Text)
  | 0, found, t => .ok (found.reverse, t)
  | fuel + 1, found, t =>
    match skipBlanks t with
    | 0x2E :: rest => do
      let (part, rest) ← keyPart (skipBlanks rest)
      keyParts fuel (part :: found) rest
    | t => .ok (found.reverse, t)

def key (t : Text) : Except Flaw (List Text × Text) := do
  let (part, rest) ← keyPart t
  keyParts (rest.length + 1) [part] rest

def expect (b : UInt8) (flaw : Flaw) : Text → Except Flaw Text
  | c :: rest => if c = b then .ok rest else .error flaw
  | [] => .error flaw

/-! ### Values -/

def word (name : Text) (value : Value) (t : Text) : Except Flaw (Value × Text) :=
  if Text.startsWith name t then .ok (value, t.drop name.length) else .error .badValue

mutual

def value : (fuel : Nat) → Text → Except Flaw (Value × Text)
  | 0, _ | _, [] => .error .badValue
  | fuel + 1, b :: t =>
    if b = 0x22 ∨ b = 0x27 then do
      let (s, rest) ← if startsLong (b :: t) then longString (b :: t) else shortString (b :: t)
      pure (.text s, rest)
    else if b = 0x74 then word "true" (.bool true) (b :: t)
    else if b = 0x66 then word "false" (.bool false) (b :: t)
    else if b = 0x5B then (items fuel true t).map fun rest => (.list, rest)
    else if b = 0x7B then entries fuel true .top [] t
    else if startsMoment (b :: t) then moment (b :: t)
    else number (b :: t)

/-- The rest after the items of a list. A comma may stand behind the last one. -/
def items : (fuel : Nat) → (isFirst : Bool) → Text → Except Flaw Text
  | 0, _, _ => .error .badList
  | fuel + 1, isFirst, t => do
    let t ← skipGaps (t.length + 1) t
    match t with
    | [] => throw .badList
    | 0x5D :: rest => pure rest
    | b :: rest =>
      if isFirst = (b == 0x2C) then throw .badList
      let t ← if isFirst then pure t else skipGaps (rest.length + 1) rest
      if t.head? = some 0x5D then pure (t.drop 1)
      else
        let (_, rest) ← value fuel t
        items fuel false rest

def entries : (fuel : Nat) → (isFirst : Bool) → Seen → Fields → Text →
    Except Flaw (Value × Text)
  | 0, _, _, _, _ => .error .badTable
  | fuel + 1, isFirst, seen, found, t => do
    match skipBlanks t with
    | 0x7D :: rest => pure (.map found, rest)
    | t =>
      let t ← if isFirst then pure t else (expect 0x2C .badTable t).map skipBlanks
      let (path, value, rest) ← assignment fuel t
      let seen ← seen.assign path
      entries fuel false seen (put value path found) rest

def assignment : (fuel : Nat) → Text → Except Flaw (List Text × Value × Text)
  | 0, _ => .error .badValue
  | fuel + 1, t => do
    let (path, rest) ← key t
    let rest ← expect 0x3D .badKey rest
    let (value, rest) ← value fuel (skipBlanks rest)
    pure (path, value, rest)

end

/-! ### Files -/

structure Document where
  fields : Fields := []
  seen : Seen := .top
  current : List Text := []

namespace Document

def tableLine (d : Document) (isList : Bool) (t : Text) : Except Flaw (Document × Text) := do
  let (path, rest) ← key (skipBlanks t)
  let rest ← expect 0x5D .badTable rest
  let rest ← if isList then expect 0x5D .badTable rest else pure rest
  let seen := d.seen.update Seen.settle d.current
  let seen ← seen.openAt (if isList then Seen.enterTables else Seen.enterTable) path
  let fields := if isList then put .list path d.fields else ensure path d.fields
  pure (⟨fields, seen, path⟩, rest)

def valueLine (d : Document) (t : Text) : Except Flaw (Document × Text) := do
  let (path, value, rest) ← assignment (2 * t.length + 2) t
  let seen ← d.seen.updateM (fun s => s.assign path) d.current
  pure ({ d with seen, fields := put value (d.current ++ path) d.fields }, rest)

def line (d : Document) (t : Text) : Except Flaw (Document × Text) := do
  let (d, rest) ←
    match t with
    | 0x5B :: 0x5B :: rest => d.tableLine true rest
    | 0x5B :: rest => d.tableLine false rest
    | _ => d.valueLine t
  pure (d, ← skipComment (skipBlanks rest))

def lines : (fuel : Nat) → (isFirst : Bool) → Document → Text → Except Flaw Document
  | 0, _, d, _ => .ok d
  | fuel + 1, isFirst, d, t => do
    if t = [] then pure d
    else
      let t ← if isFirst then pure t else skipLineEnd t
      let t ← skipComment (skipBlanks t)
      if t = [] ∨ t.head? = some 0x0A ∨ t.head? = some 0x0D then lines fuel false d t
      else
        let (d, t) ← d.line t
        lines fuel false d t

end Document

def read (file : Bytes) : Except Flaw Fields :=
  (Document.lines (file.length + 2) true {} file).map Document.fields

end JvmAssembler.Toml
