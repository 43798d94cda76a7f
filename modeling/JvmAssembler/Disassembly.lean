import JvmAssembler.ClassFile.Read

/-!
# Disassembly

The code of a method as rows, one for each instruction, with the pool entries that operands refer
to.
-/

set_option autoImplicit false

namespace JvmAssembler

inductive Operand where
  | bare
  | immediate (value : Int)
  | slot (index : UInt8)
  | constant (index : Nat) (symbol : Symbol)
  | constantPair (index₁ : Nat) (symbol₁ : Symbol) (index₂ : Nat) (symbol₂ : Symbol)
deriving DecidableEq

/-- A disassembled instruction at its offset in the code. -/
structure Row where
  offset : Nat
  opcode : Opcode
  operand : Operand
deriving DecidableEq

namespace Row

def name (r : Row) : Text := r.opcode.name

def operands (r : Row) : List Int :=
  match r.operand with
  | .bare => []
  | .immediate value => [value]
  | .slot index => [index.toNat]
  | .constant index _ => [index]
  | .constantPair index₁ _ index₂ _ => [index₁, index₂]

/-- What a listing adds to explain the operand. -/
def remark (r : Row) : Text :=
  match r.operand with
  | .bare => []
  | .immediate _ => []
  | .slot index => .concat ["local_", .decimal index.toNat]
  | .constant _ s => s.text
  | .constantPair _ s₁ _ s₂ => .concat [s₁.text, ", ", s₂.text]

/-- The string or number that the operand refers to. -/
def literal? (r : Row) : Option Symbol :=
  match r.operand with
  | .constant _ s => if s.isLiteral then some s else none
  | _ => none

end Row

inductive DisassemblyError where
  | unknownOpcode (byte : UInt8) (offset : Nat)
  | truncated (op : Opcode) (offset : Nat)
  | indexOutOfRange (index : Nat)
deriving DecidableEq

def DisassemblyError.message : DisassemblyError → Text
  | .unknownOpcode byte offset =>
    .concat ["unknown opcode 0x", .hex 2 byte.toNat, " at offset ", .decimal offset]
  | .truncated op offset => .concat [op.name, " at offset ", .decimal offset, " is truncated"]
  | .indexOutOfRange index =>
    .concat ["constant pool index out of range: ", .decimal index]

namespace OpcodeInfo

/-- The number of bytes that follow an opcode. A narrow opcode holds its pool index in one. -/
def operandWidth (i : OpcodeInfo) : Nat :=
  match i.form with
  | .bare => 0
  | .byte => 1
  | .short => 2
  | .slot => 1
  | .constant => if i.wide?.isSome then 1 else 2
  | .constantPair => 4

end OpcodeInfo

namespace Opcode

/-- The number of bytes that follow an opcode; none follow one that is not known. -/
def operandWidth (c : Opcode) : Nat := (c.info?.map OpcodeInfo.operandWidth).getD 0

end Opcode

namespace Row

def endOffset (r : Row) : Nat := r.offset + 1 + r.opcode.operandWidth

end Row

namespace Disassembly

def symbolAt (pool : Array Symbol) (index : Nat) : Except DisassemblyError Symbol :=
  match ClassFile.symbolIn pool index with
  | some s => .ok s
  | none => .error (.indexOutOfRange index)

/-- The operand that the bytes behind an opcode write, as many as its width says. -/
def operandOf (pool : Array Symbol) (form : Form) (raw : Bytes) :
    Except DisassemblyError Operand :=
  let value := BigEndian.value raw
  match form with
  | .bare => .ok .bare
  | .byte => .ok (.immediate value.toUInt8.toInt8.toInt)
  | .short => .ok (.immediate value.toUInt16.toInt16.toInt)
  | .slot => .ok (.slot value.toUInt8)
  | .constant => (symbolAt pool value).map (.constant value)
  | .constantPair => do
    let first := value / 65536
    let second := value % 65536
    let a ← symbolAt pool first
    let b ← symbolAt pool second
    pure (.constantPair first a second b)

/-- The instruction that starts with the given byte at an offset, and the code behind it. -/
def next (pool : Array Symbol) (offset : Nat) (first : UInt8) (rest : Bytes) :
    Except DisassemblyError (Row × Bytes) :=
  let op : Opcode := ⟨first⟩
  match op.info? with
  | none => .error (.unknownOpcode first offset)
  | some info =>
    let raw := rest.take info.operandWidth
    if raw.length < info.operandWidth then .error (.truncated op offset)
    else (operandOf pool info.form raw).map fun operand =>
      (⟨offset, op, operand⟩, rest.drop info.operandWidth)

/-- The rows of the code from an offset on, at most `fuel` of them, behind those in `found`, newest
first. -/
def rowsFrom (pool : Array Symbol) : (fuel : Nat) → (offset : Nat) → (found : List Row) → Bytes →
    Except DisassemblyError (List Row)
  | _, _, found, [] => .ok found.reverse
  | 0, _, found, _ :: _ => .ok found.reverse
  | fuel + 1, offset, found, first :: rest =>
    match next pool offset first rest with
    | .error e => .error e
    | .ok (row, after) => rowsFrom pool fuel row.endOffset (row :: found) after

/-- The rows of a method's code. Every instruction takes at least one byte. -/
def rows (pool : Array Symbol) (code : Bytes) : Except DisassemblyError (List Row) :=
  rowsFrom pool code.length 0 [] code

end Disassembly

structure CodeListing where
  limits : Limits
  rows : List Row
deriving DecidableEq

structure MethodListing where
  name : Text
  descriptor : Text
  access : AccessFlags
  code : Option CodeListing
deriving DecidableEq

structure MethodError where
  name : Text
  descriptor : Text
  error : DisassemblyError
deriving DecidableEq

def MethodError.message (e : MethodError) : Text :=
  .concat ["method ", e.name, e.descriptor, ": ", e.error.message]

namespace ClassFile

def disassembleMethod (f : ClassFile) (m : MethodInfo) : Except MethodError MethodListing :=
  match m.code with
  | none => .ok ⟨m.name, m.descriptor, m.access, none⟩
  | some code =>
    match Disassembly.rows f.pool code.code with
    | .ok rows => .ok ⟨m.name, m.descriptor, m.access, some ⟨code.limits, rows⟩⟩
    | .error e => .error ⟨m.name, m.descriptor, e⟩

def disassemble (f : ClassFile) : Except MethodError (List MethodListing) :=
  f.methods.mapM f.disassembleMethod

end ClassFile

end JvmAssembler
