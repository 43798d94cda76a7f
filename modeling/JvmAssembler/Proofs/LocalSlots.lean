import Mathlib.Algebra.BigOperators.Group.List.Basic
import Mathlib.Algebra.GroupWithZero.Nat
import JvmAssembler.Proofs.EndEffects
import JvmAssembler.Proofs.MethodChanges

/-!
# The slots of local variables

The names of a method's local variables have slots in the order of their first use. A slot is cut
down to a byte when an instruction takes it, but a method in which that changes a slot cannot be
ended: the first name that finds no room is noted as a problem.

A parameter takes one slot like any other name, while its type may take two of the frame. So the
slots of names and the places of arguments in the frame part after the first such type.
-/

set_option autoImplicit false
set_option relaxedAutoImplicit false

namespace JvmAssembler

namespace Emission

/-- There is a slot for every name, and no parameter has the name of a local variable that was used
before it. -/
def SlotsFit (es : List Emission) : Prop :=
  (locals es).length ≤ 256 ∧
    ∀ before name after, es = before ++ .parameter name :: after → name ∉ locals before

section

variable {es : List Emission} {e : Emission} {name : Text}

private theorem nodup_locals (es : List Emission) : (locals es).Nodup := by
  induction es using List.reverseRecOn with
  | nil => exact List.nodup_nil
  | append_singleton es e ih =>
    cases named : e.localName? with
    | none =>
      rw [locals_append_of_none named]
      exact ih
    | some name =>
      by_cases known : name ∈ locals es
      · rw [locals_append_of_mem named known]
        exact ih
      · rw [locals_append_of_notMem named known]
        exact List.nodup_append.mpr ⟨ih, List.nodup_singleton name, fun other old last new equal =>
          known ((equal.trans (List.mem_singleton.mp new)) ▸ old)⟩

private theorem eraseDups_of_nodup {names : List Text} (nodup : names.Nodup) :
    names.eraseDups = names := by
  induction names with
  | nil => rfl
  | cons name names ih =>
    obtain ⟨fresh, rest⟩ := List.nodup_cons.mp nodup
    have kept : names.filter (fun other => !other == name) = names := by
      rw [List.filter_eq_self]
      rintro other member
      have differs : other ≠ name := fun same => fresh (same ▸ member)
      simpa using differs
    rw [List.eraseDups_cons, kept, ih rest]

private theorem isPrefix_locals {names : List Text} (nodup : names.Nodup)
    (first : names.map .parameter <+: es.filter fun e => e.localName?.isSome) :
    names <+: locals es := by
  have kept : (es.filter fun e => e.localName?.isSome).filterMap localName? =
      es.filterMap localName? := by
    rw [List.filterMap_filter]
    refine List.filterMap_congr fun e _ => ?_
    cases e.localName? with
    | none => rfl
    | some name => rfl
  have own : (names.map .parameter).filterMap localName? = names := by
    rw [List.filterMap_map]
    exact List.filterMap_some
  have front := first.filterMap localName?
  rw [kept, own] at front
  obtain ⟨rest, whole⟩ := front
  rw [locals, ← whole, List.eraseDups_append, eraseDups_of_nodup nodup]
  exact List.prefix_append _ _

private theorem Accepted.length_locals_le (accepted : e.Accepted es)
    (named : e.localName? = some name)
    (fresh : name ∉ locals es) : (locals es).length ≤ maxSlot := by
  cases e with
  | parameter other => exact accepted.2
  | localVariable op other =>
    cases named
    exact accepted.resolve_left fresh
  | _ => cases named

private theorem slotsFit_of_accepted (accepted : Along Accepted es) : SlotsFit es := by
  constructor
  · induction es using List.reverseRecOn with
    | nil => exact Nat.zero_le 256
    | append_singleton es e ih =>
      obtain ⟨before, last⟩ := along_append_singleton.mp accepted
      cases named : e.localName? with
      | none =>
        rw [locals_append_of_none named]
        exact ih before
      | some name =>
        by_cases known : name ∈ locals es
        · rw [locals_append_of_mem named known]
          exact ih before
        · have room : (locals es).length ≤ 255 := last.length_locals_le named known
          rw [locals_append_of_notMem named known, List.length_append, List.length_singleton]
          omega
  · rintro before name after rfl
    have front : before ++ .parameter name :: after = (before ++ [.parameter name]) ++ after := by
      simp
    rw [front] at accepted
    exact (along_append_singleton.mp accepted.of_append).2.1

end

end Emission

private theorem BaseType.one_le_slots (type : BaseType) : 1 ≤ type.slots := by
  cases type <;> decide

namespace FieldType

private theorem one_le_slots (t : FieldType) : 1 ≤ t.slots := by
  obtain ⟨dimensions, element⟩ := t
  rw [slots]
  split_ifs
  · cases element with
    | base type => exact type.one_le_slots
    | object name => exact Nat.le_refl 1
  · exact Nat.le_refl 1

private theorem sum_slots_eq_length_iff (types : List FieldType) :
    (types.map slots).sum = types.length ↔ ∀ t ∈ types, t.slots = 1 := by
  induction types with
  | nil => simp
  | cons t types ih =>
    have here := one_le_slots t
    have later : types.length ≤ (types.map slots).sum := by
      rw [← List.length_map (f := slots)]
      refine List.length_le_sum_of_one_le _ fun n member => ?_
      obtain ⟨t', -, rfl⟩ := List.mem_map.mp member
      exact one_le_slots t'
    rw [List.map_cons, List.sum_cons, List.length_cons, List.forall_mem_cons, ← ih]
    omega

end FieldType

private theorem MethodType.argumentSlots_eq_sum (type : MethodType) :
    type.argumentSlots = (type.parameters.map FieldType.slots).sum := by
  rw [argumentSlots, List.sum_eq_foldr, List.foldr_map]

namespace MethodBuilder

variable {b : MethodBuilder} {es : List Emission}

private theorem locals_slotFor (named : b.locals.toList = Emission.locals es) {e : Emission}
    {name : Text} (use : e.localName? = some name) :
    (b.slotFor name).1.locals.toList = Emission.locals (es ++ [e]) := by
  cases found : b.slot? name with
  | some n =>
    have known : name ∈ b.locals.toList := List.isSome_idxOf?.mp (by rw [← slot?, found]; rfl)
    rw [named] at known
    simp only [slotFor, found]
    rw [Emission.locals_append_of_mem use known, named]
  | none =>
    have fresh : name ∉ b.locals.toList := List.idxOf?_eq_none_iff.mp found
    rw [named] at fresh
    have pushed : (b.slotFor name).1.locals = b.locals.push name := by
      simp only [slotFor, found]
      split_ifs
      · rfl
      · rfl
    rw [pushed, Trail.toList_push, Emission.locals_append_of_notMem use fresh, named]

private theorem locals_emit (named : b.locals.toList = Emission.locals es) (e : Emission) :
    (b.emit e).builder.locals.toList = Emission.locals (es ++ [e]) := by
  cases e with
  | parameter name =>
    rw [emit]
    split_ifs with known
    · have old : name ∈ b.locals.toList := List.isSome_idxOf?.mp known
      rw [named] at old
      rw [Emission.locals_append_of_mem rfl old]
      exact named
    · exact locals_slotFor named rfl
  | localVariable op name =>
    rw [← locals_slotFor named rfl]
    exact congrArg Trail.toList (grown_add _ _).locals
  | _ =>
    rw [(grown_emit b rfl).locals, Emission.locals_append_of_none rfl]
    exact named

/-- An instruction on a named local variable has the slot that the method reports for the name. -/
def Places (b : MethodBuilder) (e : Emission) (i : Instruction) : Prop :=
  ∀ op name, e = .localVariable op name →
    ∃ slot : UInt8, i = .slot op slot ∧ b.slot? name = some slot.toNat

private theorem slot?_eq_some_iff (named : b.locals.toList = Emission.locals es) {name : Text}
    {k : Nat} : b.slot? name = some k ↔ (Emission.locals es)[k]? = some name := by
  have nodup := Emission.nodup_locals es
  rw [slot?, named, List.idxOf?_eq_some_iff, List.getElem?_eq_some_iff]
  constructor
  · rintro ⟨inside, here, -⟩
    exact ⟨inside, here⟩
  · rintro ⟨inside, here⟩
    refine ⟨inside, here, fun j before same => ?_⟩
    have index : j = k := nodup.getElem_inj_iff.mp (same.trans here.symm)
    omega

/-- The instructions of a method without problems go with what was emitted, one by one. A name's
place is below 256, so that it does not change in a byte. -/
private theorem Tracks.places (tracks : b.Tracks es) :
    List.Forall₂ b.Places (es.filter fun e => !e.isParameter) b.instructions.toList := by
  have pieces : List.Forall₂ (· = ·)
      ((es.filter fun e => !e.isParameter).map (Emission.instruction? (Emission.locals es)))
      (b.instructions.toList.map some) := by
    rw [tracks.instructions, Emission.instructions]
    exact List.forall₂_refl _
  rw [List.forall₂_map_left_iff, List.forall₂_map_right_iff, List.forall₂_iff_zip] at pieces
  obtain ⟨lengths, pieces⟩ := pieces
  refine List.forall₂_iff_zip.mpr ⟨lengths, fun {e i} pair => ?_⟩
  rintro op name rfl
  have given := pieces pair
  have used : name ∈ Emission.locals es :=
    Emission.mem_locals (List.mem_filter.mp (List.of_mem_zip pair).1).1 rfl
  have place := List.idxOf_lt_length_of_mem used
  have room := (Emission.slotsFit_of_accepted tracks.accepted).1
  refine ⟨((Emission.locals es).idxOf name).toUInt8, (Option.some.inj given).symm, ?_⟩
  have whole : ((Emission.locals es).idxOf name).toUInt8.toNat =
      (Emission.locals es).idxOf name := by
    rw [Nat.toUInt8, UInt8.toNat_ofNat']
    omega
  rw [whole, slot?_eq_some_iff tracks.locals]
  exact List.getElem?_idxOf used

end MethodBuilder

namespace Assembler

section

variable {o : Options} {calls : List Call} {m : MethodId} {b : MethodBuilder}

private theorem tracks_run (o : Options) (legal : Along Call.Legal calls)
    (found : (run { options := o } calls).methods[m]? = some b) (live : b.stage = .live)
    (clean : b.problems.toList = []) : b.Tracks (emittedTo m calls) := by
  refine method_induction o
    (P := fun es b => b.stage = .live → b.problems.toList = [] → b.Tracks es)
    ?_ ?_ ?_ legal found live clean
  · intro owner access name descriptor stage _ _
    exact ⟨rfl, rfl, along_nil _⟩
  · intro es b _ closed
    cases closed
  · intro es b e holds live clean
    have before := (b.stage_emit e).symm.trans live
    exact MethodBuilder.Tracks.emit before (holds before) clean

private theorem locals_run (o : Options) (legal : Along Call.Legal calls)
    (found : (run { options := o } calls).methods[m]? = some b) :
    b.locals.toList = Emission.locals (emittedTo m calls) := by
  refine method_induction o (P := fun es b => b.locals.toList = Emission.locals es)
    ?_ ?_ ?_ legal found
  · intro owner access name descriptor stage
    rfl
  · intro es b named
    exact named
  · intro es b e named
    exact MethodBuilder.locals_emit named e

private theorem exists_class_of_method (o : Options) (legal : Along Call.Legal calls)
    (found : (run { options := o } calls).methods[m]? = some b) :
    ∃ B, (run { options := o } calls).classes[b.owner]? = some B := by
  have recorded := recorded_run o legal
  have begun := List.mem_of_getElem? (recorded.getElem?_methodsBegun found)
  have inside := owner_lt_of_legal legal begun
  rw [← recorded.classes_size] at inside
  exact ⟨_, Array.getElem?_eq_getElem inside⟩

end

/-- A method that is ended without failure has used at most 256 names, none of them for a parameter
after it was in use. The slot it reports for a name is the name's place in the order of first use,
and each instruction on a named local variable that its class has taken carries the slot of that
name. With more names, or with such a parameter, the method cannot be ended. -/
theorem local_slots_consistent (o : Options) {calls : List Call} (legal : Along Call.Legal calls)
    (m : MethodId) :
    let a := run { options := o } calls
    let es := emittedTo m calls
    ((a.endMethod m).1 = .ok () →
      Emission.SlotsFit es ∧
        ∃ b B method, (a.endMethod m).2.methods[m]? = some b ∧
          (a.endMethod m).2.classes[b.owner]? = some B ∧
          B.methods.toList.getLast? = some method ∧
          (∀ name k, b.slot? name = some k ↔ (Emission.locals es)[k]? = some name) ∧
          List.Forall₂ b.Places (es.filter fun e => !e.isParameter) method.instructions) ∧
    (¬ Emission.SlotsFit es →
      ∃ f, (a.endMethod m).1 = .error f ∧ f.kind = .precondition) := by
  intro a es
  constructor
  · intro ok
    have outcome := a.methodEnd m
    generalize a.endMethod m = result at outcome ok
    cases outcome with
    | taken b found live limits closed method made =>
      obtain ⟨clean, -⟩ := closeMethod_eq_ok closed
      have tracks := tracks_run o legal found live
        (MethodBuilder.allProblems_eq_nil_iff.mp clean).1
      obtain ⟨B, owner⟩ := exists_class_of_method o legal found
      refine ⟨Emission.slotsFit_of_accepted tracks.accepted, { b with stage := .closed },
        { B with openMethod := none, methods := B.methods.push method }, method, ?_, ?_, ?_, ?_, ?_⟩
      · change (a.methods.modify m fun b => { b with stage := .closed })[m]? = _
        rw [Array.getElem?_modify, if_pos rfl, found]
        rfl
      · change ((a.classes.modify b.owner fun B => { B with openMethod := none }).modify b.owner
          fun B => { B with methods := B.methods.push method })[b.owner]? = _
        rw [Array.getElem?_modify, if_pos rfl, Array.getElem?_modify, if_pos rfl, owner]
        rfl
      · rw [Trail.toList_push]
        exact List.getLast?_concat
      · intro name k
        exact MethodBuilder.slot?_eq_some_iff (b := b) tracks.locals
      · rw [Method.eq_of_make_eq_ok made]
        exact tracks.places
    | _ => cases ok
  · intro crowded
    apply endMethod_fails_of_problems
    intro b found live clean
    exact crowded (Emission.slotsFit_of_accepted (tracks_run o legal found live clean).accepted)

def sumHistory : List Call :=
  [.beginClass "Calc" defaultClassAccess [],
    .beginMethod 0 defaultMethodAccess "add" "(II)I", .emit 0 (.parameter "x"),
    .emit 0 (.localVariable .iload "x"), .beginClass "Other" defaultClassAccess [],
    .emit 0 (.parameter "y"), .emit 0 (.localVariable .istore "sum"),
    .emit 0 (.localVariable .iload "y"), .emit 0 (.bare .ireturn)]

/-- Two parameters and a local variable have the slots 0, 1 and 2. A parameter cannot have the name
of the local variable. -/
theorem local_slots_of_sumHistory :
    Along Call.Legal sumHistory ∧ ((run {} sumHistory).endMethod 0).1 = .ok () ∧
      (∃ b, ((run {} sumHistory).endMethod 0).2.methods[0]? = some b ∧ b.slot? "x" = some 0 ∧
        b.slot? "y" = some 1 ∧ b.slot? "sum" = some 2) ∧
      ∃ f, ((run {} (sumHistory ++ [.emit 0 (.parameter "sum")])).endMethod 0).1 = .error f ∧
        f.kind = .precondition := by
  have legal : Along Call.Legal sumHistory := by decide
  have taken : ((run {} sumHistory).endMethod 0).1 = .ok () := rfl
  obtain ⟨-, b, -, -, found, -, -, slots, -⟩ := (local_slots_consistent {} legal 0).1 taken
  have legal' : Along Call.Legal (sumHistory ++ [.emit 0 (.parameter "sum")]) := by decide
  have repeated :
      ¬ Emission.SlotsFit (emittedTo 0 (sumHistory ++ [.emit 0 (.parameter "sum")])) := by
    rintro ⟨-, fresh⟩
    have known : ("sum" : Text) ∈ Emission.locals (emittedTo 0 sumHistory) := by decide
    exact fresh (emittedTo 0 sumHistory) "sum" [] rfl known
  exact ⟨legal, taken, ⟨b, found, (slots _ _).mpr (by decide), (slots _ _).mpr (by decide),
    (slots _ _).mpr (by decide)⟩, (local_slots_consistent {} legal' 0).2 repeated⟩

/-! ### Parameters in the frame -/

/-- When all parameters are declared first, in order, each has its number as its slot, whatever the
types before it. In a static method that is where the frame has the argument exactly when none of
the types before it takes two slots, and the first local variable after the parameters is past all
arguments exactly when no parameter has such a type. -/
theorem parameter_slots_count_names (o : Options) {calls : List Call}
    (legal : Along Call.Legal calls) {m : MethodId} {b : MethodBuilder}
    (found : (run { options := o } calls).methods[m]? = some b) {type : MethodType}
    (_parsed : Descriptor.parseMethod b.descriptor = .ok type) {names : List Text}
    (nodup : names.Nodup) (all : names.length = type.parameters.length)
    (first : names.map .parameter <+:
      (emittedTo m calls).filter fun e => e.localName?.isSome) :
    (∀ k name, names[k]? = some name →
      b.slot? name = some k ∧
        (b.slot? name = some ((type.parameters.take k).map FieldType.slots).sum ↔
          ∀ p ∈ type.parameters.take k, p.slots = 1)) ∧
    ∀ name, (Emission.locals (emittedTo m calls))[type.parameters.length]? = some name →
      b.slot? name = some type.parameters.length ∧
        (b.slot? name = some type.argumentSlots ↔ ∀ p ∈ type.parameters, p.slots = 1) := by
  have named := locals_run o legal found
  obtain ⟨rest, whole⟩ := Emission.isPrefix_locals nodup first
  constructor
  · intro k name here
    obtain ⟨inside, -⟩ := List.getElem?_eq_some_iff.mp here
    have slot : b.slot? name = some k := by
      rw [MethodBuilder.slot?_eq_some_iff named, ← whole, List.getElem?_append_left inside]
      exact here
    have before : (type.parameters.take k).length = k :=
      List.length_take_of_le (by omega)
    refine ⟨slot, ?_⟩
    rw [slot, Option.some_inj, ← FieldType.sum_slots_eq_length_iff, before]
    exact eq_comm
  · intro name here
    have slot := (MethodBuilder.slot?_eq_some_iff named).mpr here
    refine ⟨slot, ?_⟩
    rw [slot, Option.some_inj, ← FieldType.sum_slots_eq_length_iff,
      MethodType.argumentSlots_eq_sum]
    exact eq_comm

def declaredHistory (descriptor : Text) (parameters : List Text) (last : Text) : List Call :=
  [.beginClass "A" defaultClassAccess [], .beginMethod 0 defaultMethodAccess "f" descriptor] ++
    parameters.map (fun name => .emit 0 (.parameter name)) ++
    [.emit 0 (.localVariable .istore last)]

/-- An array of long values takes one slot, so that all names are in their places. -/
theorem parameter_slots_of_narrow :
    let calls := declaredHistory "(I[JF)V" ["n", "values", "scale"] "t"
    ∃ b type, Along Call.Legal calls ∧ (run {} calls).methods[0]? = some b ∧
      Descriptor.parseMethod b.descriptor = .ok type ∧
      b.slot? "scale" = some ((type.parameters.take 2).map FieldType.slots).sum ∧
      b.slot? "t" = some type.argumentSlots := by
  intro calls
  have legal : Along Call.Legal calls := by decide
  obtain ⟨b, found, descriptor⟩ :
      ∃ b, (run {} calls).methods[0]? = some b ∧ b.descriptor = ("(I[JF)V" : Text) :=
    ⟨_, rfl, rfl⟩
  have parsed : Descriptor.parseMethod b.descriptor =
      .ok ⟨[⟨0, .base .int⟩, ⟨1, .base .long⟩, ⟨0, .base .float⟩], .void⟩ := by
    rw [descriptor]
    rfl
  have nodup : (["n", "values", "scale"] : List Text).Nodup := by decide
  have slots := parameter_slots_count_names {} legal found parsed nodup rfl (by decide)
  exact ⟨b, _, legal, found, parsed, (slots.1 2 "scale" rfl).2.mpr (by decide),
    (slots.2 "t" (by decide)).2.mpr (by decide)⟩

/-- After a long value the name of the next parameter has the slot of the value's second half, and
no problem is noted. -/
theorem parameter_after_long_misplaced :
    let calls := declaredHistory "(JI)V" ["x", "y"] "t"
    ∃ b type, Along Call.Legal calls ∧ (run {} calls).methods[0]? = some b ∧
      b.access.has .isStatic = true ∧ Descriptor.parseMethod b.descriptor = .ok type ∧
      b.problems.toList = [] ∧
      b.slot? "y" = some 1 ∧ ((type.parameters.take 1).map FieldType.slots).sum = 2 ∧
      b.slot? "t" = some 2 ∧ type.argumentSlots = 3 :=
  ⟨_, ⟨[⟨0, .base .long⟩, ⟨0, .base .int⟩], .void⟩, by decide, rfl, rfl, rfl, rfl, rfl, rfl, rfl,
    rfl⟩

end Assembler

end JvmAssembler
