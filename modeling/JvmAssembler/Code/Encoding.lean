import JvmAssembler.BigEndian
import JvmAssembler.Failure

/-!
# Encoding instructions

The bytes of instructions, given the pool indices of their symbols. An instruction with one pool
index takes the narrow form of its opcode where there is one and the index fits in a byte.
-/

set_option autoImplicit false

namespace JvmAssembler

/-- Where instructions get the pool indices of their symbols from. -/
abbrev Resolver := Symbol → Except Failure UInt16

/-- The largest pool index that a narrow opcode can carry. -/
def maxNarrowIndex : UInt16 := 255

namespace Instruction

/-- The opcode and the pool index that an instruction with one symbol is encoded with. -/
def resolveConstant (r : Resolver) (op : Opcode) (symbol : Option Symbol) :
    Except Failure (Opcode × UInt16) :=
  match symbol with
  | none => .error (.because .invariant "bytecode.SymbolOperand" (.missingSymbol op))
  | some s => do
    let index ← r s
    match op.fullWidth.narrow? with
    | some narrow =>
      if index ≤ maxNarrowIndex then pure (narrow, index) else pure (op.fullWidth, index)
    | none => pure (op.fullWidth, index)

/-- Puts the bytes of an instruction behind code, which stays as it is when there are none. -/
def appendTo (r : Resolver) (code : Array UInt8) : Instruction → Array UInt8 × Except Failure Unit
  | .bare op => (code.push op.byte, .ok ())
  | .byte op value => ((code.push op.byte).push value.toUInt8, .ok ())
  | .short op value => (code.push op.byte ++ BigEndian.u2 value.toUInt16, .ok ())
  | .slot op index => ((code.push op.byte).push index, .ok ())
  | .constant op symbol =>
    match resolveConstant r op symbol with
    | .error failure => (code, .error failure)
    | .ok (chosen, index) =>
      if chosen ≠ op.fullWidth then ((code.push chosen.byte).push index.toUInt8, .ok ())
      else (code.push chosen.byte ++ BigEndian.u2 index, .ok ())
  | .constantPair op (some first) (some second) =>
    match r first with
    | .error failure => (code, .error failure)
    | .ok a =>
      match r second with
      | .error failure => (code, .error failure)
      | .ok b => (code.push op.byte ++ BigEndian.u2 a ++ BigEndian.u2 b, .ok ())
  | .constantPair op _ _ =>
    (code, .error (.because .invariant "bytecode.TwoSymbolOperand" (.missingSymbolOfPair op)))

/-- The number of bytes of an instruction. For a pair of symbols it does not depend on their
indices. -/
def encodedLength (r : Resolver) : Instruction → Except Failure Nat
  | .bare _ => .ok 1
  | .byte _ _ => .ok 2
  | .short _ _ => .ok 3
  | .slot _ _ => .ok 2
  | .constant op symbol => do
    let (code, _) ← resolveConstant r op symbol
    pure (if code ≠ op.fullWidth then 2 else 3)
  | .constantPair _ _ _ => .ok 5

end Instruction

namespace Code

/-- Puts the bytes of instructions behind code, one after the other, up to the first that fails. -/
def appendAll (r : Resolver) (code : Array UInt8) :
    List Instruction → Array UInt8 × Except Failure Unit
  | [] => (code, .ok ())
  | i :: instructions =>
    match i.appendTo r code with
    | (code, .ok ()) => appendAll r code instructions
    | stopped => stopped

def encode (r : Resolver) (instructions : List Instruction) : Except Failure Bytes :=
  match appendAll r #[] instructions with
  | (code, .ok ()) => .ok code.toList
  | (_, .error failure) => .error failure

def encodedLength (r : Resolver) (instructions : List Instruction) : Except Failure Nat :=
  (instructions.mapM (Instruction.encodedLength r)).map (List.foldr (· + ·) 0)

/-- The operand-less instructions that push a number, for -1 to 5. -/
def smallIntegers : List (Int × Opcode) :=
  [(-1, .iconstM1), (0, .iconst0), (1, .iconst1), (2, .iconst2), (3, .iconst3), (4, .iconst4),
   (5, .iconst5)]

/-- The shortest instruction that pushes a number. From 16 bits on it needs a pool entry. -/
def integerInstruction (value : Int32) : Instruction :=
  match smallIntegers.lookup value.toInt with
  | some op => .bare op
  | none =>
    if -128 ≤ value.toInt ∧ value.toInt ≤ 127 then .byte .bipush value.toInt8
    else if -32768 ≤ value.toInt ∧ value.toInt ≤ 32767 then .short .sipush value.toInt16
    else .constant .ldcW (some (.integer value))

end Code

end JvmAssembler
