import JvmAssembler.Text

/-!
# Opcodes

The instructions of the virtual machine that the assembler knows, with the shape of their operands
and their effect on the operand stack.
-/

set_option autoImplicit false

namespace JvmAssembler

/-- The byte that starts an instruction. It need not be one the assembler knows. -/
structure Opcode where
  byte : UInt8
deriving DecidableEq, Hashable

/-- What follows an opcode in the code. -/
inductive Form where
  | bare
  /-- A signed 8-bit number. -/
  | byte
  /-- A signed 16-bit number. -/
  | short
  /-- An unsigned 8-bit local variable slot. -/
  | slot
  /-- An index into the constant pool. -/
  | constant
  /-- Two indices into the constant pool. -/
  | constantPair
deriving DecidableEq

namespace Form

def name : Form → Text
  | .bare => "none"
  | .byte => "byte"
  | .short => "short"
  | .slot => "local"
  | .constant => "symbol"
  | .constantPair => "two-symbols"

def all : List Form := [.bare, .byte, .short, .slot, .constant, .constantPair]

def ofNumber? (n : Nat) : Option Form := all[n]?

def number (f : Form) : Nat := all.idxOf f

end Form

structure OpcodeInfo where
  opcode : Opcode
  name : Text
  form : Form
  /-- The slots taken from the stack, unless the referenced member decides. -/
  pops : Option Nat
  /-- The slots put on the stack, unless the referenced member decides. -/
  pushes : Option Nat
  /-- The opcode that carries a pool index up to 255 in one byte, where there is one. -/
  narrow? : Option Opcode := none
  /-- The opcode that this one is the narrow form of. -/
  wide? : Option Opcode := none

namespace Opcode

def nop : Opcode := ⟨0x00⟩
def aconstNull : Opcode := ⟨0x01⟩
def iconstM1 : Opcode := ⟨0x02⟩
def iconst0 : Opcode := ⟨0x03⟩
def iconst1 : Opcode := ⟨0x04⟩
def iconst2 : Opcode := ⟨0x05⟩
def iconst3 : Opcode := ⟨0x06⟩
def iconst4 : Opcode := ⟨0x07⟩
def iconst5 : Opcode := ⟨0x08⟩
def bipush : Opcode := ⟨0x10⟩
def sipush : Opcode := ⟨0x11⟩
def ldc : Opcode := ⟨0x12⟩
def ldcW : Opcode := ⟨0x13⟩
def iload : Opcode := ⟨0x15⟩
def aload : Opcode := ⟨0x19⟩
def istore : Opcode := ⟨0x36⟩
def astore : Opcode := ⟨0x3A⟩
def pop : Opcode := ⟨0x57⟩
def dup : Opcode := ⟨0x59⟩
def swap : Opcode := ⟨0x5F⟩
def iadd : Opcode := ⟨0x60⟩
def isub : Opcode := ⟨0x64⟩
def imul : Opcode := ⟨0x68⟩
def idiv : Opcode := ⟨0x6C⟩
def irem : Opcode := ⟨0x70⟩
def ineg : Opcode := ⟨0x74⟩
def ireturn : Opcode := ⟨0xAC⟩
def areturn : Opcode := ⟨0xB0⟩
def vreturn : Opcode := ⟨0xB1⟩
def getstatic : Opcode := ⟨0xB2⟩
def putstatic : Opcode := ⟨0xB3⟩
def getfield : Opcode := ⟨0xB4⟩
def putfield : Opcode := ⟨0xB5⟩
def invokevirtual : Opcode := ⟨0xB6⟩
def invokespecial : Opcode := ⟨0xB7⟩
def invokestatic : Opcode := ⟨0xB8⟩

def table : List OpcodeInfo :=
  [⟨nop, "nop", .bare, some 0, some 0, none, none⟩,
   ⟨aconstNull, "aconst_null", .bare, some 0, some 1, none, none⟩,
   ⟨iconstM1, "iconst_m1", .bare, some 0, some 1, none, none⟩,
   ⟨iconst0, "iconst_0", .bare, some 0, some 1, none, none⟩,
   ⟨iconst1, "iconst_1", .bare, some 0, some 1, none, none⟩,
   ⟨iconst2, "iconst_2", .bare, some 0, some 1, none, none⟩,
   ⟨iconst3, "iconst_3", .bare, some 0, some 1, none, none⟩,
   ⟨iconst4, "iconst_4", .bare, some 0, some 1, none, none⟩,
   ⟨iconst5, "iconst_5", .bare, some 0, some 1, none, none⟩,
   ⟨bipush, "bipush", .byte, some 0, some 1, none, none⟩,
   ⟨sipush, "sipush", .short, some 0, some 1, none, none⟩,
   ⟨ldc, "ldc", .constant, some 0, some 1, none, some ldcW⟩,
   ⟨ldcW, "ldc_w", .constant, some 0, some 1, some ldc, none⟩,
   ⟨iload, "iload", .slot, some 0, some 1, none, none⟩,
   ⟨aload, "aload", .slot, some 0, some 1, none, none⟩,
   ⟨istore, "istore", .slot, some 1, some 0, none, none⟩,
   ⟨astore, "astore", .slot, some 1, some 0, none, none⟩,
   ⟨pop, "pop", .bare, some 1, some 0, none, none⟩,
   ⟨dup, "dup", .bare, some 1, some 2, none, none⟩,
   ⟨swap, "swap", .bare, some 2, some 2, none, none⟩,
   ⟨iadd, "iadd", .bare, some 2, some 1, none, none⟩,
   ⟨isub, "isub", .bare, some 2, some 1, none, none⟩,
   ⟨imul, "imul", .bare, some 2, some 1, none, none⟩,
   ⟨idiv, "idiv", .bare, some 2, some 1, none, none⟩,
   ⟨irem, "irem", .bare, some 2, some 1, none, none⟩,
   ⟨ineg, "ineg", .bare, some 1, some 1, none, none⟩,
   ⟨ireturn, "ireturn", .bare, some 1, some 0, none, none⟩,
   ⟨areturn, "areturn", .bare, some 1, some 0, none, none⟩,
   ⟨vreturn, "return", .bare, some 0, some 0, none, none⟩,
   ⟨getstatic, "getstatic", .constant, some 0, none, none, none⟩,
   ⟨putstatic, "putstatic", .constant, none, some 0, none, none⟩,
   ⟨getfield, "getfield", .constant, some 1, none, none, none⟩,
   ⟨putfield, "putfield", .constant, none, some 0, none, none⟩,
   ⟨invokevirtual, "invokevirtual", .constant, none, none, none, none⟩,
   ⟨invokespecial, "invokespecial", .constant, none, none, none, none⟩,
   ⟨invokestatic, "invokestatic", .constant, none, none, none, none⟩]

def info? (c : Opcode) : Option OpcodeInfo := table.find? (·.opcode == c)

def isKnown (c : Opcode) : Bool := c.info?.isSome

/-- The mnemonic of an opcode, `unknown` for one that is not known. -/
def name (c : Opcode) : Text := (c.info?.map OpcodeInfo.name).getD "unknown"

/-- The opcode with the one-byte index that an opcode may be encoded as. -/
def narrow? (c : Opcode) : Option Opcode := c.info?.bind OpcodeInfo.narrow?

/-- The full-width opcode: the wide counterpart of a narrow opcode, else the opcode itself. -/
def fullWidth (c : Opcode) : Opcode := (c.info?.bind OpcodeInfo.wide?).getD c

end Opcode

end JvmAssembler
