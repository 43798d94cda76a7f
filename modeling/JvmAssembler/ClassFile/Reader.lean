import JvmAssembler.BigEndian
import JvmAssembler.Symbol
import JvmAssembler.Text.ModifiedUtf8

/-!
# Reading fields

A reader takes a value off the front of the bytes and leaves the rest, or says why it cannot.
-/

set_option autoImplicit false

namespace JvmAssembler

/-- Why bytes are not a class file. Pool entries are named by their index. -/
inductive ReadError where
  | truncated
  | badMagic (found : UInt32)
  | emptyPoolCount
  | badText (entry : Nat) (error : ModifiedUtf8.DecodeError)
  | unsupportedTag (entry : Nat) (tag : Tag)
  | indexOutOfRange (index : Nat)
  | notUtf8 (index : Nat) (found : Tag)
  | notClass (index : Nat) (found : Tag)
  | nestsTooDeeply (entry : Nat)
  | ownerNotClass (entry index : Nat) (found : Tag)
  | memberNotNameAndType (entry index : Nat) (found : Tag)
  | malformedCode (method : Text) (inner : ReadError)
  | trailing (count : Nat)

def ReadError.message : ReadError → Text
  | .truncated => "classfile: unexpected end of data"
  | .badMagic found => .concat ["classfile: bad magic 0x", .hex 8 found.toNat]
  | .emptyPoolCount => "classfile: constant pool count is 0"
  | .badText entry error =>
    .concat ["classfile: pool entry ", .decimal entry, ": ", error.message]
  | .unsupportedTag entry tag =>
    .concat ["classfile: pool entry ", .decimal entry, ": unsupported tag ",
      .decimal tag.byte.toNat]
  | .indexOutOfRange index => .concat ["classfile: pool index ", .decimal index, " out of range"]
  | .notUtf8 index found =>
    .concat ["classfile: pool index ", .decimal index, " is ", found.text, ", want Utf8"]
  | .notClass index found =>
    .concat ["classfile: pool index ", .decimal index, " is ", found.text, ", want Class"]
  | .nestsTooDeeply entry =>
    .concat ["classfile: pool entry ", .decimal entry, " nests too deeply"]
  | .ownerNotClass entry index found =>
    .concat ["classfile: pool entry ", .decimal entry, ": class index ", .decimal index, " is ",
      found.text]
  | .memberNotNameAndType entry index found =>
    .concat ["classfile: pool entry ", .decimal entry, ": name and type index ", .decimal index,
      " is ", found.text]
  | .malformedCode method inner =>
    .concat ["classfile: method ", method, ": malformed Code attribute: ", inner.message]
  | .trailing count => .concat ["classfile: ", .decimal count, " trailing bytes"]

/-- Takes a value off the front of the bytes. -/
abbrev Reader := StateT Bytes (Except ReadError)

namespace Reader

def take (n : Nat) : Reader Bytes := fun bs =>
  let front := bs.take n
  if front.length = n then .ok (front, bs.drop n) else .error .truncated

def u1 : Reader UInt8
  | b :: rest => .ok (b, rest)
  | [] => .error .truncated

def u2 : Reader UInt16
  | b₀ :: b₁ :: rest => .ok ((BigEndian.value [b₀, b₁]).toUInt16, rest)
  | _ => .error .truncated

def u4 : Reader UInt32
  | b₀ :: b₁ :: b₂ :: b₃ :: rest => .ok ((BigEndian.value [b₀, b₁, b₂, b₃]).toUInt32, rest)
  | _ => .error .truncated

/-- Reads `n` items, numbered from `start` on, behind those in `found`, newest first. -/
def manyFrom {α : Type} (item : Nat → Reader α) :
    (n : Nat) → (start : Nat) → (found : List α) → Reader (List α)
  | 0, _, found => pure found.reverse
  | n + 1, start, found => do
    let a ← item start
    manyFrom item n (start + 1) (a :: found)

/-- Reads `n` items; an item is told its number, counted from 1. -/
def many {α : Type} (n : Nat) (item : Nat → Reader α) : Reader (List α) := manyFrom item n 1 []

def fail {α : Type} (e : ReadError) : Reader α := fun _ => .error e

def lift {α : Type} (result : Except ReadError α) : Reader α := fun bs =>
  result.map fun a => (a, bs)

end Reader

end JvmAssembler
