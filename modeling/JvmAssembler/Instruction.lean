import JvmAssembler.Opcode
import JvmAssembler.Symbol

/-!
# Instructions

An instruction is an opcode and an operand. The opcode may be unknown, and the operand's shape
need not be the one the opcode calls for: whoever emits instructions answers for that.
-/

set_option autoImplicit false

namespace JvmAssembler

/-- An instruction by the shape of its operand. A symbol may be missing. -/
inductive Instruction where
  | bare (op : Opcode)
  | byte (op : Opcode) (value : Int8)
  | short (op : Opcode) (value : Int16)
  | slot (op : Opcode) (index : UInt8)
  | constant (op : Opcode) (symbol : Option Symbol)
  | constantPair (op : Opcode) (first second : Option Symbol)
deriving DecidableEq

namespace Instruction

def givenOpcode : Instruction → Opcode
  | .bare op => op
  | .byte op _ => op
  | .short op _ => op
  | .slot op _ => op
  | .constant op _ => op
  | .constantPair op _ _ => op

/-- The full-width opcode. The width of a single pool index is chosen when the instruction is
encoded, so the narrow form of an opcode counts as the wide one. -/
def opcode : Instruction → Opcode
  | .constant op _ => op.fullWidth
  | i => i.givenOpcode

def symbols : Instruction → List (Option Symbol)
  | .constant _ symbol => [symbol]
  | .constantPair _ first second => [first, second]
  | _ => []

def symbolText : Option Symbol → Text
  | some symbol => symbol.text
  | none => "%!s(<nil>)"

def text (i : Instruction) : Text :=
  match i with
  | .bare op => op.name
  | .byte op value => .concat [op.name, " ", .signed value.toInt]
  | .short op value => .concat [op.name, " ", .signed value.toInt]
  | .slot op index => .concat [op.name, " ", .decimal index.toNat]
  | .constant _ symbol => .concat [i.opcode.name, " ", symbolText symbol]
  | .constantPair op first second =>
    .concat [op.name, " ", symbolText first, ", ", symbolText second]

end Instruction

end JvmAssembler
