import JvmAssembler.ClassFile.Reader

/-!
# Raw constant pools

The entries of a constant pool as a class file holds them, with references by index, and their
symbols. An entry's symbol is built from those of the entries it refers to, each of which is built
once.
-/

set_option autoImplicit false

namespace JvmAssembler

/-- A pool entry with its references by index. -/
inductive RawEntry where
  | utf8 (text : Text)
  | integer (value : Int32)
  | classRef (name : UInt16)
  | string (text : UInt16)
  | nameAndType (name descriptor : UInt16)
  | fieldRef (owner member : UInt16)
  | methodRef (owner member : UInt16)
deriving DecidableEq

namespace RawEntry

def tag : RawEntry → Tag
  | .utf8 _ => .utf8
  | .integer _ => .integer
  | .classRef _ => .classRef
  | .string _ => .string
  | .nameAndType _ _ => .nameAndType
  | .fieldRef _ _ => .fieldRef
  | .methodRef _ _ => .methodRef

def readBody (entry : Nat) (tag : Tag) : Reader RawEntry := do
  if tag = .utf8 then
    let bytes ← Reader.take (← Reader.u2).toNat
    match ModifiedUtf8.decode bytes with
    | .ok text => pure (.utf8 text)
    | .error e => Reader.fail (.badText entry e)
  else if tag = .integer then
    pure (.integer (← Reader.u4).toInt32)
  else if tag = .classRef then
    pure (.classRef (← Reader.u2))
  else if tag = .string then
    pure (.string (← Reader.u2))
  else if tag = .nameAndType then
    let name ← Reader.u2
    let descriptor ← Reader.u2
    pure (.nameAndType name descriptor)
  else if tag = .fieldRef then
    let owner ← Reader.u2
    let member ← Reader.u2
    pure (.fieldRef owner member)
  else if tag = .methodRef then
    let owner ← Reader.u2
    let member ← Reader.u2
    pure (.methodRef owner member)
  else Reader.fail (.unsupportedTag entry tag)

def read (entry : Nat) : Reader RawEntry := do
  let tag ← Reader.u1
  readBody entry ⟨tag⟩

end RawEntry

namespace RawPool

abbrev Memo := Array (Option Symbol)

/-- Building symbols, which remembers those already built. -/
abbrev Build := StateT Memo (Except ReadError)

/-- How many references deep an entry may nest. -/
def maxDepth : Nat := 4

def expectUtf8 (index : Nat) : Symbol → Build Text
  | .utf8 text => pure text
  | s => throw (.notUtf8 index s.tag)

/-- The name of a symbol that an entry's owner index must lead to as a class. -/
def expectOwner (entry index : Nat) : Symbol → Build Text
  | .classRef name => pure name
  | s => throw (.ownerNotClass entry index s.tag)

/-- The name and descriptor that an entry's member index must lead to. -/
def expectMember (entry index : Nat) : Symbol → Build (Text × Text)
  | .nameAndType name descriptor => pure (name, descriptor)
  | s => throw (.memberNotNameAndType entry index s.tag)

/-- The symbol of an entry, given a way to the symbols at other indices. -/
def symbolOf (symbolAt : Nat → Build Symbol) (entry : Nat) : RawEntry → Build Symbol
  | .utf8 text => pure (.utf8 text)
  | .integer value => pure (.integer value)
  | .classRef name => do
    pure (.classRef (← expectUtf8 name.toNat (← symbolAt name.toNat)))
  | .string text => do
    pure (.string (← expectUtf8 text.toNat (← symbolAt text.toNat)))
  | .nameAndType name descriptor => do
    let n ← expectUtf8 name.toNat (← symbolAt name.toNat)
    let d ← expectUtf8 descriptor.toNat (← symbolAt descriptor.toNat)
    pure (.nameAndType n d)
  | .fieldRef owner member => do
    let o ← expectOwner entry owner.toNat (← symbolAt owner.toNat)
    let (n, d) ← expectMember entry member.toNat (← symbolAt member.toNat)
    pure (.fieldRef o n d)
  | .methodRef owner member => do
    let o ← expectOwner entry owner.toNat (← symbolAt owner.toNat)
    let (n, d) ← expectMember entry member.toNat (← symbolAt member.toNat)
    pure (.methodRef o n d)

/-- The symbol at an index, where entries may still nest `depth` levels. -/
def build (raw : Array RawEntry) : (depth : Nat) → (index : Nat) → Build Symbol
  | depth, index => do
    if index = 0 then throw (.indexOutOfRange index)
    match raw[index - 1]? with
    | none => throw (.indexOutOfRange index)
    | some entry =>
      match (← get)[index - 1]? with
      | some (some s) => pure s
      | _ =>
        match depth with
        | 0 => throw (.nestsTooDeeply index)
        | depth + 1 => do
          let s ← symbolOf (build raw depth) index entry
          modify fun memo => memo.setIfInBounds (index - 1) (some s)
          pure s

/-- The symbols of all entries, built in the order of their indices. -/
def symbols (raw : Array RawEntry) : Except ReadError (List Symbol) :=
  ((List.range' 1 raw.size).mapM (build raw maxDepth)).run' (Array.replicate raw.size none)

end RawPool

end JvmAssembler
