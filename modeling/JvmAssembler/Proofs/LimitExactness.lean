import Mathlib.Algebra.GroupWithZero.Nat
import Mathlib.Data.List.Forall2
import Mathlib.Data.List.Induction
import Mathlib.Order.Bounds.Basic
import Mathlib.Tactic.SplitIfs
import JvmAssembler.Code.Limits

/-!
# Computed limits are exact

A machine that knows nothing but the depth of its stack runs the code of a method, taking and
putting slots instruction by instruction. The limits of the code can be computed exactly when the
machine runs through and its numbers fit, and they are then the greatest depth and the greatest
number of local variables that the machine meets.
-/

set_option autoImplicit false
set_option relaxedAutoImplicit false

namespace JvmAssembler

namespace Opcode

def fixedEffects : List (StackEffect × List Opcode) :=
  [(⟨0, 0⟩, [nop, vreturn]),
   (⟨0, 1⟩, [aconstNull, iconstM1, iconst0, iconst1, iconst2, iconst3, iconst4, iconst5, bipush,
      sipush, ldc, ldcW, iload, aload]),
   (⟨1, 0⟩, [istore, astore, pop, ireturn, areturn]),
   (⟨1, 1⟩, [ineg]),
   (⟨1, 2⟩, [dup]),
   (⟨2, 1⟩, [iadd, isub, imul, idiv, irem]),
   (⟨2, 2⟩, [swap])]

def memberOpcodes : List Opcode :=
  [getstatic, putstatic, getfield, putfield, invokevirtual, invokespecial, invokestatic]

private theorem fixed_or_member_of_mem_table : ∀ info ∈ table,
    (∃ group ∈ fixedEffects, info.opcode ∈ group.2) ∨ info.opcode ∈ memberOpcodes := by
  decide

private theorem info?_of_fixed : ∀ group ∈ fixedEffects, ∀ c ∈ group.2,
    (c.info?.map fun info => (info.pops, info.pushes)) =
      some (some group.1.pops, some group.1.pushes) := by
  decide

private theorem info?_of_member : ∀ c ∈ memberOpcodes,
    (c.info?.map fun info => (info.opcode, info.pops.isSome && info.pushes.isSome)) =
      some (c, false) := by
  decide

end Opcode

namespace Descriptor

/-- The slots of a value, by the text of its type: two for `J` and `D`, none for `V`, and one for
anything else. -/
def width (type : Text) : Nat :=
  if type = [0x4A] ∨ type = [0x44] then 2 else if type = [0x56] then 0 else 1

def argumentWidth (m : MethodType) : Nat := (m.parameters.map fun p => width p.text).sum

private theorem slots_eq_width (t : FieldType) : t.slots = width t.text := by
  obtain ⟨dimensions, element⟩ := t
  cases dimensions with
  | zero =>
    cases element with
    | base type => cases type <;> rfl
    | object name => simp [FieldType.slots, FieldType.text, ElementType.text, width]
  | succ n => simp [FieldType.slots, FieldType.text, List.replicate_succ, width]

private theorem result_slots_eq_width (r : ReturnType) : r.slots = width r.text := by
  cases r with
  | void => rfl
  | value t => exact slots_eq_width t

private theorem argumentSlots_eq_argumentWidth (m : MethodType) :
    m.argumentSlots = argumentWidth m := by
  rw [MethodType.argumentSlots, argumentWidth, List.sum_eq_foldr, List.foldr_map]
  simp only [slots_eq_width]

end Descriptor

namespace Limits

open Descriptor (width argumentWidth)

/-- What an access to a member with a descriptor takes from the stack and puts on it. A receiver
takes one slot below the arguments. -/
inductive MemberMoves (c : Opcode) (descriptor : Text) : StackEffect → Prop where
  | getstatic {t : FieldType} (code : c = .getstatic)
    (described : Descriptor.parseField descriptor = .ok t) :
    MemberMoves c descriptor ⟨0, width t.text⟩
  | putstatic {t : FieldType} (code : c = .putstatic)
    (described : Descriptor.parseField descriptor = .ok t) :
    MemberMoves c descriptor ⟨width t.text, 0⟩
  | getfield {t : FieldType} (code : c = .getfield)
    (described : Descriptor.parseField descriptor = .ok t) :
    MemberMoves c descriptor ⟨1, width t.text⟩
  | putfield {t : FieldType} (code : c = .putfield)
    (described : Descriptor.parseField descriptor = .ok t) :
    MemberMoves c descriptor ⟨1 + width t.text, 0⟩
  | invokestatic {m : MethodType} (code : c = .invokestatic)
    (described : Descriptor.parseMethod descriptor = .ok m) :
    MemberMoves c descriptor ⟨argumentWidth m, width m.result.text⟩
  | invoke {m : MethodType} (code : c = .invokevirtual ∨ c = .invokespecial)
    (described : Descriptor.parseMethod descriptor = .ok m) :
    MemberMoves c descriptor ⟨argumentWidth m + 1, width m.result.text⟩

/-- The effect of an instruction is defined: its opcode fixes it, or the field or method that it
refers to does. A byte that is no opcode moves nothing. -/
inductive Moves : Instruction → StackEffect → Prop where
  | fixed {i : Instruction} {e : StackEffect} {codes : List Opcode}
    (group : (e, codes) ∈ Opcode.fixedEffects) (member : i.opcode ∈ codes) : Moves i e
  | unknown {i : Instruction} (unknown : i.opcode.isKnown = false) : Moves i ⟨0, 0⟩
  | member {op : Opcode} {s : Symbol} {owner name descriptor : Text} {e : StackEffect}
    (named : s = .fieldRef owner name descriptor ∨ s = .methodRef owner name descriptor)
    (moves : MemberMoves op.fullWidth descriptor e) : Moves (.constant op (some s)) e

private theorem memberDescriptor?_eq_some_iff {s : Symbol} {descriptor : Text} :
    s.memberDescriptor? = some descriptor ↔ ∃ owner name,
      s = .fieldRef owner name descriptor ∨ s = .methodRef owner name descriptor := by
  cases s <;> simp [Symbol.memberDescriptor?]

private theorem memberEffect_eq (c : Opcode) (descriptor : Text) :
    memberEffect c descriptor =
      if c = .getstatic then (Descriptor.parseField descriptor).map fun t => ⟨0, width t.text⟩
      else if c = .putstatic then (Descriptor.parseField descriptor).map fun t => ⟨width t.text, 0⟩
      else if c = .getfield then (Descriptor.parseField descriptor).map fun t => ⟨1, width t.text⟩
      else if c = .putfield then
        (Descriptor.parseField descriptor).map fun t => ⟨1 + width t.text, 0⟩
      else (Descriptor.parseMethod descriptor).map fun m =>
        ⟨if c = .invokestatic then argumentWidth m else argumentWidth m + 1,
          width m.result.text⟩ := by
  simp only [memberEffect, Descriptor.slots_eq_width, Descriptor.result_slots_eq_width,
    Descriptor.argumentSlots_eq_argumentWidth]

private theorem memberEffect_eq_ok_iff {c : Opcode} (member : c ∈ Opcode.memberOpcodes)
    {descriptor : Text} {e : StackEffect} :
    memberEffect c descriptor = .ok e ↔ MemberMoves c descriptor e := by
  have map_ok : ∀ {α : Type} {r : Except DescriptorError α} {f : α → StackEffect},
      r.map f = .ok e → ∃ a, r = .ok a ∧ f a = e := by
    intro α r f mapped
    cases r with
    | error problem => cases mapped
    | ok a => exact ⟨a, rfl, Except.ok.inj mapped⟩
  constructor
  · intro given
    rw [memberEffect_eq] at given
    split_ifs at given with h₁ h₂ h₃ h₄ h₅
    · obtain ⟨t, described, rfl⟩ := map_ok given
      exact .getstatic h₁ described
    · obtain ⟨t, described, rfl⟩ := map_ok given
      exact .putstatic h₂ described
    · obtain ⟨t, described, rfl⟩ := map_ok given
      exact .getfield h₃ described
    · obtain ⟨t, described, rfl⟩ := map_ok given
      exact .putfield h₄ described
    · obtain ⟨m, described, rfl⟩ := map_ok given
      exact .invokestatic h₅ described
    · obtain ⟨m, described, rfl⟩ := map_ok given
      refine .invoke ?_ described
      simpa [Opcode.memberOpcodes, h₁, h₂, h₃, h₄, h₅] using member
  · intro moves
    cases moves with
    | getstatic code described => subst code; rw [memberEffect_eq, described]; rfl
    | putstatic code described => subst code; rw [memberEffect_eq, described]; rfl
    | getfield code described => subst code; rw [memberEffect_eq, described]; rfl
    | putfield code described => subst code; rw [memberEffect_eq, described]; rfl
    | invokestatic code described => subst code; rw [memberEffect_eq, described]; rfl
    | invoke code described =>
      rcases code with rfl | rfl
      · rw [memberEffect_eq, described]; rfl
      · rw [memberEffect_eq, described]; rfl

private theorem MemberMoves.mem {c : Opcode} {descriptor : Text} {e : StackEffect}
    (moves : MemberMoves c descriptor e) : c ∈ Opcode.memberOpcodes := by
  cases moves with
  | getstatic code _ => subst code; decide
  | putstatic code _ => subst code; decide
  | getfield code _ => subst code; decide
  | putfield code _ => subst code; decide
  | invokestatic code _ => subst code; decide
  | invoke code _ => rcases code with rfl | rfl <;> decide

private theorem effect_of_fixed {i : Instruction} {e : StackEffect} {codes : List Opcode}
    (group : (e, codes) ∈ Opcode.fixedEffects) (member : i.opcode ∈ codes) : effect i = .ok e := by
  have known := Opcode.info?_of_fixed (e, codes) group i.opcode member
  obtain ⟨info, found, numbers⟩ := Option.map_eq_some_iff.mp known
  obtain ⟨pops, pushes⟩ := Prod.mk.inj numbers
  rw [effect, found]
  simp only [pops, pushes]

private theorem effect_of_member {i : Instruction} (member : i.opcode ∈ Opcode.memberOpcodes) :
    effect i =
      match memberDescriptor? i with
      | none => .error (.missingMember i.opcode)
      | some descriptor => (memberEffect i.opcode descriptor).mapError .descriptor := by
  have known := Opcode.info?_of_member i.opcode member
  obtain ⟨info, found, numbers⟩ := Option.map_eq_some_iff.mp known
  obtain ⟨code, variableEffect⟩ := Prod.mk.inj numbers
  rw [effect, found]
  simp only [code]
  rcases pops : info.pops with _ | p
  · rfl
  · rcases pushes : info.pushes with _ | q
    · rfl
    · simp [pops, pushes] at variableEffect

private theorem effect_eq_ok_iff {i : Instruction} {e : StackEffect} :
    effect i = .ok e ↔ Moves i e := by
  constructor
  · intro given
    rcases found : i.opcode.info? with _ | info
    · rw [effect, found] at given
      cases given
      exact .unknown (by rw [Opcode.isKnown, found]; rfl)
    · have code : info.opcode = i.opcode := beq_iff_eq.mp (List.find?_some
        (p := fun other : OpcodeInfo => other.opcode == i.opcode) found)
      have row := Opcode.fixed_or_member_of_mem_table info (List.mem_of_find?_eq_some found)
      rw [code] at row
      rcases row with ⟨group, grouped, member⟩ | member
      · have fixedEffect := effect_of_fixed grouped member
        rw [fixedEffect] at given
        cases given
        exact .fixed grouped member
      · rw [effect_of_member member] at given
        cases i with
        | constant op symbol =>
          cases symbol with
          | none => cases given
          | some s =>
            rcases named : s.memberDescriptor? with _ | descriptor
            · simp only [memberDescriptor?, named] at given
              cases given
            · obtain ⟨owner, name, reference⟩ := memberDescriptor?_eq_some_iff.mp named
              simp only [memberDescriptor?, named] at given
              rcases ran : memberEffect (Instruction.constant op (some s)).opcode descriptor with
                problem | e'
              · rw [ran] at given
                cases given
              · rw [ran] at given
                cases given
                exact .member reference ((memberEffect_eq_ok_iff member).mp ran)
        | _ => cases given
  · intro moves
    cases moves with
    | fixed group member => exact effect_of_fixed group member
    | unknown unknown =>
      have missing : i.opcode.info? = none := by simpa [Opcode.isKnown] using unknown
      rw [effect, missing]
    | @member op s owner name descriptor e reference moves =>
      have named : s.memberDescriptor? = some descriptor :=
        memberDescriptor?_eq_some_iff.mpr ⟨owner, name, reference⟩
      have member : (Instruction.constant op (some s)).opcode ∈ Opcode.memberOpcodes := moves.mem
      have ran : memberEffect (Instruction.constant op (some s)).opcode descriptor = .ok e :=
        (memberEffect_eq_ok_iff member).mpr moves
      rw [effect_of_member member]
      simp only [memberDescriptor?, named]
      rw [ran]
      rfl

end Limits

namespace StackEffect

def apply (depth : Nat) (e : StackEffect) : Option Nat :=
  if e.pops ≤ depth then some (depth - e.pops + e.pushes) else none

def depthAfter (effects : List StackEffect) : Option Nat := effects.foldlM apply 0

/-- The depths that a stack has on the way through effects, before the first and after each. -/
def depths (effects : List StackEffect) : Set Nat :=
  {d | ∃ k, depthAfter (effects.take k) = some d}

private theorem depthAfter_append_singleton (effects : List StackEffect) (e : StackEffect) :
    depthAfter (effects ++ [e]) = (depthAfter effects).bind fun d => apply d e := by
  rw [depthAfter, List.foldlM_append, depthAfter]
  cases effects.foldlM apply 0 with
  | none => rfl
  | some d => simp

private theorem take_append_singleton_cases (effects : List StackEffect) (e : StackEffect)
    (k : Nat) :
    (effects ++ [e]).take k = effects.take k ∨ (effects ++ [e]).take k = effects ++ [e] := by
  rcases Nat.lt_or_ge effects.length k with beyond | within
  · right
    apply List.take_of_length_le
    rw [List.length_append, List.length_singleton]
    omega
  · left
    exact List.take_append_of_le_length within

private theorem depths_nil : depths [] = {0} := by
  ext d
  simp [depths, depthAfter, eq_comm]

private theorem depths_append_singleton {effects : List StackEffect} {e : StackEffect} {d : Nat}
    (reached : depthAfter (effects ++ [e]) = some d) :
    depths (effects ++ [e]) = insert d (depths effects) := by
  ext d'
  constructor
  · rintro ⟨k, stands⟩
    rcases take_append_singleton_cases effects e k with shorter | whole
    · rw [shorter] at stands
      exact Or.inr ⟨k, stands⟩
    · rw [whole, reached] at stands
      exact Or.inl (Option.some.inj stands).symm
  · rintro (rfl | ⟨k, stands⟩)
    · refine ⟨(effects ++ [e]).length, ?_⟩
      rw [List.take_length]
      exact reached
    · refine ⟨min k effects.length, ?_⟩
      rw [List.take_append_of_le_length (Nat.min_le_right _ _), ← List.take_eq_take_min]
      exact stands

end StackEffect

namespace Limits

open StackEffect (depthAfter depths)
open Descriptor (argumentWidth)

/-- The machine runs through the code of a method with a descriptor: every instruction has an
effect, and none takes more slots than the stack holds. -/
structure Runs (instructions : List Instruction) (descriptor : Text) (m : MethodType)
    (effects : List StackEffect) : Prop where
  described : Descriptor.parseMethod descriptor = .ok m
  moves : List.Forall₂ Moves instructions effects
  holds : ∀ k, ∃ d, depthAfter (effects.take k) = some d

/-- The numbers of local variables that are called for: one for all arguments and the receiver,
which only a static method lacks, and one for each instruction that names a slot. -/
def localCounts (instructions : List Instruction) (access : AccessFlags) (m : MethodType) :
    Set Nat :=
  {n | n = argumentWidth m + (if access.bits &&& 0x0008 = 0x0008 then 0 else 1) ∨
    ∃ op index, Instruction.slot op index ∈ instructions ∧ n = index.toNat + 1}

private theorem step_eq_ok_iff {u u' : Usage} {i : Instruction} {position : Nat} :
    step u (i, position) = .ok u' ↔
      ∃ e depth, Moves i e ∧ e.apply u.depth = some depth ∧
        u' = ⟨depth, max u.peak depth, max u.locals (localsNeeded i)⟩ := by
  rw [step]
  rcases ran : effect i with cause | e
  · constructor
    · intro given
      cases given
    · rintro ⟨e, depth, moves, -, -⟩
      rw [effect_eq_ok_iff.mpr moves] at ran
      cases ran
  · dsimp only
    constructor
    · intro given
      split_ifs at given with short
      cases given
      refine ⟨e, _, effect_eq_ok_iff.mp ran, ?_, rfl⟩
      rw [StackEffect.apply, if_pos (Nat.le_of_not_lt short)]
    · rintro ⟨e', depth, moves, applied, rfl⟩
      rw [effect_eq_ok_iff.mpr moves] at ran
      cases ran
      rw [StackEffect.apply] at applied
      split_ifs at applied with enough
      cases applied
      rw [if_neg (Nat.not_lt.mpr enough)]

private theorem kind_of_step_eq_error {u : Usage} {item : Instruction × Nat} {f : Failure}
    (failed : step u item = .error f) : f.kind = .precondition := by
  obtain ⟨i, position⟩ := item
  rw [step] at failed
  split at failed
  · cases failed
    rfl
  · dsimp only at failed
    split_ifs at failed
    cases failed
    rfl

/-- What the walk has seen is what the machine met on its way. -/
structure Saw (instructions : List Instruction) (access : AccessFlags) (m : MethodType)
    (effects : List StackEffect) (u : Usage) : Prop where
  moves : List.Forall₂ Moves instructions effects
  depth : depthAfter effects = some u.depth
  holds : ∀ k, ∃ d, depthAfter (effects.take k) = some d
  peak : IsGreatest (depths effects) u.peak
  locals : IsGreatest (localCounts instructions access m) u.locals

section

variable {instructions : List Instruction} {access : AccessFlags} {m : MethodType}
  {effects : List StackEffect} {u u' : Usage}

private theorem isGreatest_localCounts_nil :
    IsGreatest (localCounts [] access m) (entryLocals access m) := by
  have only : localCounts [] access m = {entryLocals access m} := by
    ext n
    unfold entryLocals
    rw [Descriptor.argumentSlots_eq_argumentWidth]
    have flag : access.has .isStatic = true ↔ access.bits &&& 0x0008 = 0x0008 := beq_iff_eq
    by_cases static : access.bits &&& 0x0008 = 0x0008
    · rw [if_pos (flag.mpr static)]
      simp [localCounts, static]
    · rw [if_neg (mt flag.mp static)]
      simp [localCounts, static]
  rw [only]
  exact isGreatest_singleton

private theorem isGreatest_localCounts_append {n : Nat} (i : Instruction)
    (greatest : IsGreatest (localCounts instructions access m) n) :
    IsGreatest (localCounts (instructions ++ [i]) access m) (max n (localsNeeded i)) := by
  obtain ⟨reached, bound⟩ := greatest
  have kept : ∀ k ∈ localCounts instructions access m,
      k ∈ localCounts (instructions ++ [i]) access m := by
    rintro k (entry | ⟨op, index, member, count⟩)
    · exact Or.inl entry
    · exact Or.inr ⟨op, index, List.mem_append_left _ member, count⟩
  constructor
  · rcases Nat.le_total (localsNeeded i) n with fewer | more
    · rw [Nat.max_eq_left fewer]
      exact kept n reached
    · rw [Nat.max_eq_right more]
      cases i with
      | slot op index =>
        exact Or.inr ⟨op, index, List.mem_append_right _ List.mem_cons_self, rfl⟩
      | _ =>
        have none : n = 0 := Nat.le_zero.mp more
        rw [none] at reached
        exact kept 0 reached
  · rintro k (entry | ⟨op, index, member, count⟩)
    · have below := bound (Or.inl entry)
      omega
    · rcases List.mem_append.mp member with old | new
      · have below := bound (Or.inr ⟨op, index, old, count⟩)
        omega
      · rw [← List.mem_singleton.mp new, count]
        exact Nat.le_max_right _ _

private theorem Saw.step (saw : Saw instructions access m effects u) {i : Instruction}
    {position : Nat} (ran : Limits.step u (i, position) = .ok u') :
    ∃ e, Saw (instructions ++ [i]) access m (effects ++ [e]) u' := by
  obtain ⟨e, depth, moves, applied, rfl⟩ := step_eq_ok_iff.mp ran
  have reached : depthAfter (effects ++ [e]) = some depth := by
    rw [StackEffect.depthAfter_append_singleton, saw.depth]
    exact applied
  refine ⟨e, ?_, reached, ?_, ?_, isGreatest_localCounts_append i saw.locals⟩
  · exact List.rel_append saw.moves (.cons moves .nil)
  · intro k
    rcases StackEffect.take_append_singleton_cases effects e k with shorter | whole
    · rw [shorter]
      exact saw.holds k
    · exact ⟨depth, by rw [whole, reached]⟩
  · rw [StackEffect.depths_append_singleton reached, Nat.max_comm]
    exact saw.peak.insert depth

private theorem walk_append (instructions : List Instruction) (i : Instruction) (u : Usage) :
    (instructions ++ [i]).zipIdx.foldlM Limits.step u =
      instructions.zipIdx.foldlM Limits.step u >>= fun u' =>
        Limits.step u' (i, instructions.length) := by
  rw [List.zipIdx_append, List.foldlM_append]
  simp

private theorem exists_saw_of_walk
    (walked : instructions.zipIdx.foldlM Limits.step ⟨0, 0, entryLocals access m⟩ = .ok u) :
    ∃ effects, Saw instructions access m effects u := by
  induction instructions using List.reverseRecOn generalizing u with
  | nil =>
    cases walked
    refine ⟨[], .nil, rfl, fun k => ⟨0, by rw [List.take_nil]; rfl⟩, ?_, ?_⟩
    · rw [StackEffect.depths_nil]
      exact isGreatest_singleton
    · exact isGreatest_localCounts_nil
  | append_singleton instructions i ih =>
    rw [walk_append] at walked
    rcases front : instructions.zipIdx.foldlM Limits.step ⟨0, 0, entryLocals access m⟩ with f | u'
    · rw [front] at walked
      cases walked
    · rw [front] at walked
      obtain ⟨effects, saw⟩ := ih front
      obtain ⟨e, saw'⟩ := saw.step walked
      exact ⟨effects ++ [e], saw'⟩

private theorem exists_walk (moves : List.Forall₂ Moves instructions effects) :
    ∀ (u : Usage) (position d : Nat), effects.foldlM StackEffect.apply u.depth = some d →
      ∃ u', (instructions.zipIdx position).foldlM Limits.step u = .ok u' := by
  induction moves with
  | nil => exact fun u _ _ _ => ⟨u, rfl⟩
  | @cons i e instructions effects head _ ih =>
    intro u position d ran
    rw [List.foldlM_cons] at ran
    rcases applied : e.apply u.depth with _ | depth
    · rw [applied] at ran
      cases ran
    · rw [applied] at ran
      have stepped : Limits.step u (i, position) =
          .ok ⟨depth, max u.peak depth, max u.locals (localsNeeded i)⟩ :=
        step_eq_ok_iff.mpr ⟨e, depth, head, applied, rfl⟩
      obtain ⟨u', walked⟩ :=
        ih ⟨depth, max u.peak depth, max u.locals (localsNeeded i)⟩ (position + 1) d ran
      refine ⟨u', ?_⟩
      rw [List.zipIdx_cons, List.foldlM_cons, stepped]
      exact walked

private theorem kind_of_walk_eq_error {items : List (Instruction × Nat)} {f : Failure}
    (failed : items.foldlM Limits.step u = .error f) : f.kind = .precondition := by
  induction items generalizing u with
  | nil => cases failed
  | cons item items ih =>
    rw [List.foldlM_cons] at failed
    rcases ran : Limits.step u item with f' | u'
    · rw [ran] at failed
      cases failed
      exact kind_of_step_eq_error ran
    · rw [ran] at failed
      exact ih failed

private theorem Saw.runs {descriptor : Text} (saw : Saw instructions access m effects u)
    (described : Descriptor.parseMethod descriptor = .ok m) :
    Runs instructions descriptor m effects :=
  ⟨described, saw.moves, saw.holds⟩

private theorem Moves.unique {i : Instruction} {e e' : StackEffect} (first : Moves i e)
    (second : Moves i e') : e = e' := by
  have same := (effect_eq_ok_iff.mpr first).symm.trans (effect_eq_ok_iff.mpr second)
  exact Except.ok.inj same

private theorem Runs.unique {descriptor : Text} {m' : MethodType} {effects' : List StackEffect}
    (first : Runs instructions descriptor m effects)
    (second : Runs instructions descriptor m' effects') : m = m' ∧ effects = effects' := by
  have sameType := first.described.symm.trans second.described
  refine ⟨Except.ok.inj sameType, ?_⟩
  have unique : Relator.RightUnique Moves := fun _ _ _ => Moves.unique
  exact unique.forall₂ first.moves second.moves

end

private theorem compute_cases (instructions : List Instruction) (access : AccessFlags)
    (descriptor : Text) :
    (∃ f, compute instructions access descriptor = .error f ∧ f.kind = .precondition ∧
        ¬ ∃ m effects, Runs instructions descriptor m effects) ∨
      ∃ m effects u, Descriptor.parseMethod descriptor = .ok m ∧
        Saw instructions access m effects u ∧
        compute instructions access descriptor =
          if 65535 < u.peak ∨ 65535 < u.locals then
            .error (.because .overflow operation (.limitsTooLarge u.peak u.locals))
          else .ok ⟨u.peak.toUInt16, u.locals.toUInt16⟩ := by
  rw [compute]
  rcases described : Descriptor.parseMethod descriptor with problem | m
  · refine Or.inl ⟨_, rfl, rfl, ?_⟩
    rintro ⟨m, effects, runs⟩
    rw [runs.described] at described
    cases described
  · dsimp only
    rcases walked : instructions.zipIdx.foldlM step ⟨0, 0, entryLocals access m⟩ with f | u
    · refine Or.inl ⟨f, rfl, kind_of_walk_eq_error walked, ?_⟩
      rintro ⟨m', effects, runs⟩
      obtain ⟨d, reached⟩ := runs.holds effects.length
      rw [List.take_length] at reached
      obtain ⟨u, complete⟩ := exists_walk runs.moves ⟨0, 0, entryLocals access m⟩ 0 d reached
      rw [walked] at complete
      cases complete
    · obtain ⟨effects, saw⟩ := exists_saw_of_walk walked
      exact Or.inr ⟨m, effects, u, rfl, saw, rfl⟩

/-- The limits of a method's code are computed exactly when the machine runs through it with at most
65535 slots on the stack and at most 65535 local variables. They are then the greatest depth that
the machine meets and the greatest number of local variables that is called for, in full. Where the
machine does not run through, the caller is at fault; where only the numbers are too large, they
overflow. -/
theorem compute_exact (instructions : List Instruction) (access : AccessFlags)
    (descriptor : Text) :
    ((∃ l, compute instructions access descriptor = .ok l) ↔
      ∃ m effects, Runs instructions descriptor m effects ∧
        (∀ d ∈ depths effects, d ≤ 65535) ∧
        ∀ n ∈ localCounts instructions access m, n ≤ 65535) ∧
    (∀ l m effects, compute instructions access descriptor = .ok l →
      Runs instructions descriptor m effects →
        IsGreatest (depths effects) l.stack.toNat ∧
          IsGreatest (localCounts instructions access m) l.locals.toNat) ∧
    ∀ f, compute instructions access descriptor = .error f →
      ((∃ m effects, Runs instructions descriptor m effects) → f.kind = .overflow) ∧
        ((¬ ∃ m effects, Runs instructions descriptor m effects) → f.kind = .precondition) := by
  rcases compute_cases instructions access descriptor with
    ⟨f, failed, fault, stuck⟩ | ⟨m, effects, u, described, saw, outcome⟩
  · rw [failed]
    refine ⟨⟨?_, ?_⟩, ?_, ?_⟩
    · rintro ⟨l, given⟩
      cases given
    · rintro ⟨m, effects, runs, -, -⟩
      exact absurd ⟨m, effects, runs⟩ stuck
    · intro l m effects given
      cases given
    · intro f' given
      cases given
      exact ⟨fun runs => absurd runs stuck, fun _ => fault⟩
  · have runs := saw.runs described
    rw [outcome]
    by_cases large : 65535 < u.peak ∨ 65535 < u.locals
    · rw [if_pos large]
      refine ⟨⟨?_, ?_⟩, ?_, ?_⟩
      · rintro ⟨l, given⟩
        cases given
      · rintro ⟨m', effects', runs', stackFits, localsFit⟩
        obtain ⟨rfl, rfl⟩ := runs.unique runs'
        have peak := stackFits u.peak saw.peak.1
        have locals := localsFit u.locals saw.locals.1
        omega
      · intro l m' effects' given
        cases given
      · intro f given
        cases given
        exact ⟨fun _ => rfl, fun stuck => absurd ⟨m, effects, runs⟩ stuck⟩
    · rw [if_neg large]
      have stackFits : u.peak ≤ 65535 := by omega
      have localsFit : u.locals ≤ 65535 := by omega
      have stackNumber : u.peak.toUInt16.toNat = u.peak :=
        UInt16.toNat_ofNat_of_lt' (Nat.lt_succ_of_le stackFits)
      have localsNumber : u.locals.toUInt16.toNat = u.locals :=
        UInt16.toNat_ofNat_of_lt' (Nat.lt_succ_of_le localsFit)
      refine ⟨⟨?_, fun _ => ⟨_, rfl⟩⟩, ?_, ?_⟩
      · rintro -
        refine ⟨m, effects, runs, ?_, ?_⟩
        · intro d met
          exact (saw.peak.2 met).trans stackFits
        · intro n called
          exact (saw.locals.2 called).trans localsFit
      · intro l m' effects' given runs'
        cases given
        obtain ⟨rfl, rfl⟩ := runs.unique runs'
        rw [stackNumber, localsNumber]
        exact ⟨saw.peak, saw.locals⟩
      · intro f given
        cases given

-- A static method with the descriptor `(JD)V` has two arguments of two slots each.
example :
    (compute [.bare .vreturn] .isStatic [0x28, 0x4A, 0x44, 0x29, 0x56]).toOption =
      some ⟨0, 4⟩ := by
  decide

end Limits

end JvmAssembler
