import JvmAssembler.AccessFlags
import JvmAssembler.Failure

/-!
# Stack and local variable limits

Code without branches runs its instructions in order, so one walk over them finds the deepest
stack and the highest local variable.
-/

set_option autoImplicit false

namespace JvmAssembler

/-- What an instruction does to the operand stack, in slots. -/
structure StackEffect where
  pops : Nat
  pushes : Nat
deriving DecidableEq

structure Limits where
  stack : UInt16
  locals : UInt16
deriving DecidableEq

namespace Limits

def operation : Text := "bytecode.Limits"

/-- The effect of an instruction on a field or method, given the member's descriptor. -/
def memberEffect (op : Opcode) (descriptor : Text) : Except DescriptorError StackEffect :=
  if op = .getstatic then (Descriptor.parseField descriptor).map fun t => ⟨0, t.slots⟩
  else if op = .putstatic then (Descriptor.parseField descriptor).map fun t => ⟨t.slots, 0⟩
  else if op = .getfield then (Descriptor.parseField descriptor).map fun t => ⟨1, t.slots⟩
  else if op = .putfield then (Descriptor.parseField descriptor).map fun t => ⟨1 + t.slots, 0⟩
  else (Descriptor.parseMethod descriptor).map fun m =>
    ⟨if op = .invokestatic then m.argumentSlots else m.argumentSlots + 1, m.result.slots⟩

/-- The member that an instruction with one symbol refers to, by its descriptor. -/
def memberDescriptor? : Instruction → Option Text
  | .constant _ (some s) => s.memberDescriptor?
  | _ => none

/-- What an instruction does to the stack. An unknown opcode does nothing to it. -/
def effect (i : Instruction) : Except Cause StackEffect :=
  match i.opcode.info? with
  | none => .ok ⟨0, 0⟩
  | some info =>
    match info.pops, info.pushes with
    | some pops, some pushes => .ok ⟨pops, pushes⟩
    | _, _ =>
      match memberDescriptor? i with
      | none => .error (.missingMember info.opcode)
      | some descriptor => (memberEffect info.opcode descriptor).mapError .descriptor

/-- What a walk over the code has seen so far. -/
structure Usage where
  depth : Nat
  /-- The most slots that ever were on the stack. -/
  peak : Nat
  /-- One more than the highest local variable slot. -/
  locals : Nat
deriving DecidableEq

def localsNeeded : Instruction → Nat
  | .slot _ index => index.toNat + 1
  | _ => 0

def step (u : Usage) (item : Instruction × Nat) : Except Failure Usage :=
  let (i, position) := item
  match effect i with
  | .error cause =>
    .error (.fault .precondition operation
      (.context (.concat ["instruction ", .decimal position, " (", i.text, ")"]) (.cause cause)))
  | .ok e =>
    if u.depth < e.pops then
      .error (.because .precondition operation (.stackUnderflow position i e.pops u.depth))
    else
      let depth := u.depth - e.pops + e.pushes
      .ok ⟨depth, max u.peak depth, max u.locals (localsNeeded i)⟩

/-- The local variables that hold the receiver and the arguments on entry. -/
def entryLocals (access : AccessFlags) (m : MethodType) : Nat :=
  if access.has .isStatic then m.argumentSlots else m.argumentSlots + 1

def compute (instructions : List Instruction) (access : AccessFlags) (descriptor : Text) :
    Except Failure Limits :=
  match Descriptor.parseMethod descriptor with
  | .error e => .error (.because .precondition operation (.descriptor e))
  | .ok m => do
    let u ← instructions.zipIdx.foldlM step ⟨0, 0, entryLocals access m⟩
    if 65535 < u.peak ∨ 65535 < u.locals then
      throw (.because .overflow operation (.limitsTooLarge u.peak u.locals))
    else pure ⟨u.peak.toUInt16, u.locals.toUInt16⟩

end Limits

end JvmAssembler
