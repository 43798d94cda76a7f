import Mathlib.Data.List.Basic
import JvmAssembler.Proofs.BuilderSteps

/-!
# What emissions come to

The instructions of a method follow from what was emitted to it: each emission but a parameter is
one instruction, and a local variable has the slot of its place among the names, in the order of
their first use. A live method that has no problems holds exactly these instructions.
-/

set_option autoImplicit false
set_option relaxedAutoImplicit false

namespace JvmAssembler

namespace Emission

def localName? : Emission → Option Text
  | .parameter name => some name
  | .localVariable _ name => some name
  | _ => none

def isParameter : Emission → Bool
  | .parameter _ => true
  | _ => false

def locals (es : List Emission) : List Text := (es.filterMap localName?).eraseDups

/-- The instruction that an emission stands for when local variables have the given slots. -/
def instruction? (names : List Text) : Emission → Option Instruction
  | .instruction i => i
  | .parameter _ => none
  | .localVariable op name => some (.slot op (names.idxOf name).toUInt8)
  | .loadString text => some (.constant .ldcW (some (.string text)))
  | .loadInteger value => some (Code.integerInstruction (Int32.ofInt value))
  | .field op owner name descriptor => some (.constant op (some (.fieldRef owner name descriptor)))
  | .method op owner name descriptor =>
    some (.constant op (some (.methodRef owner name descriptor)))
  | .bare op => some (.bare op)

def instructions (es : List Emission) : List (Option Instruction) :=
  (es.filter fun e => !e.isParameter).map (instruction? (locals es))

/-- What an emission must be to be taken after others: an instruction is there, a parameter is new,
a local variable has a slot that fits in a byte, a number fits in 32 bits, and texts are UTF-8. -/
def Accepted (earlier : List Emission) : Emission → Prop
  | .instruction i => i.isSome = true
  | .parameter name => name ∉ locals earlier ∧ (locals earlier).length ≤ maxSlot
  | .localVariable _ name => name ∈ locals earlier ∨ (locals earlier).length ≤ maxSlot
  | .loadString text => Utf8.isValid text = true
  | .loadInteger value => -2147483648 ≤ value ∧ value ≤ 2147483647
  | .field _ owner name descriptor =>
    ∀ text ∈ [owner, name, descriptor], Utf8.isValid text = true
  | .method _ owner name descriptor =>
    ∀ text ∈ [owner, name, descriptor], Utf8.isValid text = true
  | .bare _ => True

section

variable {es : List Emission} {e : Emission}

theorem locals_append_of_none (other : e.localName? = none) : locals (es ++ [e]) = locals es := by
  rw [locals, List.filterMap_append]
  simp [other, locals]

private theorem eraseDups_append_singleton (names : List Text) (name : Text) :
    (names ++ [name]).eraseDups =
      if name ∈ names then names.eraseDups else names.eraseDups ++ [name] := by
  rw [List.eraseDups_append]
  split_ifs with known
  · simp [List.removeAll, known]
  · simp [List.removeAll, known, List.eraseDups_cons]

private theorem locals_append_of_some {name : Text} (named : e.localName? = some name) :
    locals (es ++ [e]) = if name ∈ locals es then locals es else locals es ++ [name] := by
  have names : (es ++ [e]).filterMap localName? = es.filterMap localName? ++ [name] := by
    simp [named]
  rw [locals, names, eraseDups_append_singleton]
  simp only [locals, List.mem_eraseDups]

theorem locals_append_of_mem {name : Text} (named : e.localName? = some name)
    (known : name ∈ locals es) : locals (es ++ [e]) = locals es := by
  rw [locals_append_of_some named, if_pos known]

theorem locals_append_of_notMem {name : Text} (named : e.localName? = some name)
    (fresh : name ∉ locals es) : locals (es ++ [e]) = locals es ++ [name] := by
  rw [locals_append_of_some named, if_neg fresh]

private theorem instruction?_append {names : List Text} (known : ∀ name, e.localName? = some name →
    name ∈ names) (more : List Text) : e.instruction? (names ++ more) = e.instruction? names := by
  cases e with
  | localVariable op name =>
    simp only [instruction?]
    rw [List.idxOf_append, if_pos (known name rfl)]
  | _ => rfl

theorem mem_locals {name : Text} (member : e ∈ es) (named : e.localName? = some name) :
    name ∈ locals es := by
  rw [locals, List.mem_eraseDups]
  exact List.mem_filterMap.mpr ⟨e, member, named⟩

private theorem exists_locals_append (es : List Emission) (e : Emission) :
    ∃ more, locals (es ++ [e]) = locals es ++ more := by
  cases named : e.localName? with
  | none => exact ⟨[], by rw [locals_append_of_none named, List.append_nil]⟩
  | some name =>
    rw [locals_append_of_some named]
    split_ifs
    · exact ⟨[], (List.append_nil _).symm⟩
    · exact ⟨[name], rfl⟩

private theorem instructions_append_singleton (es : List Emission) (e : Emission) :
    instructions (es ++ [e]) =
      instructions es ++ if e.isParameter then [] else [e.instruction? (locals (es ++ [e]))] := by
  obtain ⟨more, grown⟩ := exists_locals_append es e
  have kept : ∀ d ∈ es.filter (fun d => !d.isParameter),
      d.instruction? (locals (es ++ [e])) = d.instruction? (locals es) := by
    intro d member
    rw [grown]
    exact instruction?_append (fun name named => mem_locals (List.mem_filter.mp member).1 named)
      more
  rw [instructions, List.filter_append, List.map_append, List.map_congr_left kept]
  cases parameter : e.isParameter with
  | true => simp [instructions, parameter]
  | false => simp [instructions, parameter]

end

end Emission

namespace MethodBuilder

/-- The method holds what was emitted to it, all of which was accepted. -/
structure Tracks (es : List Emission) (b : MethodBuilder) : Prop where
  locals : b.locals.toList = Emission.locals es
  instructions : b.instructions.toList.map some = Emission.instructions es
  accepted : Along Emission.Accepted es

variable {es : List Emission} {e : Emission} {b : MethodBuilder}

theorem problems_fail_ne_nil (b : MethodBuilder) (c : Cause) :
    (b.fail c).problems.toList ≠ [] := by
  simp [fail]

private theorem slotFor_of_clean {name : Text}
    (clean : (b.slotFor name).1.problems.toList = []) :
    b.problems.toList = [] ∧ (name ∈ b.locals.toList ∨ b.locals.toList.length ≤ maxSlot) ∧
      (b.slotFor name).1.locals.toList =
        (if name ∈ b.locals.toList then b.locals.toList else b.locals.toList ++ [name]) ∧
      (b.slotFor name).2 = ((b.slotFor name).1.locals.toList.idxOf name).toUInt8 := by
  cases found : b.slot? name with
  | some n =>
    have known : name ∈ b.locals.toList := List.isSome_idxOf?.mp (by rw [← slot?, found]; rfl)
    have place : b.locals.toList.idxOf name = n := by
      rw [List.idxOf_eq_getD_idxOf?, ← slot?, found]
      rfl
    have same : b.slotFor name = (b, n.toUInt8) := by simp only [slotFor, found]
    rw [same] at clean ⊢
    rw [if_pos known, place]
    exact ⟨clean, Or.inl known, rfl, rfl⟩
  | none =>
    have fresh : name ∉ b.locals.toList := List.idxOf?_eq_none_iff.mp found
    by_cases large : maxSlot < b.locals.length
    · simp [slotFor, found, large, fail] at clean
    · have next : b.slotFor name =
          ({ b with locals := b.locals.push name }, b.locals.length.toUInt8) := by
        simp only [slotFor, found, if_neg large]
      rw [next] at clean ⊢
      have last : (b.locals.toList ++ [name]).idxOf name = b.locals.length := by
        rw [List.idxOf_append, if_neg fresh, ← Trail.length_toList]
        simp
      rw [if_neg fresh]
      dsimp only
      rw [Trail.toList_push, last, Trail.length_toList]
      exact ⟨clean, Or.inr (Nat.le_of_not_lt large), rfl, rfl⟩

private theorem Tracks.append_instruction {b' : MethodBuilder} {i : Instruction}
    (tracks : Tracks es b) (locals : b'.locals.toList = Emission.locals (es ++ [e]))
    (pushed : b'.instructions = b.instructions.push i) (real : e.isParameter = false)
    (given : e.instruction? (Emission.locals (es ++ [e])) = some i) (accepted : e.Accepted es) :
    Tracks (es ++ [e]) b' where
  locals := locals
  instructions := by
    rw [pushed, Trail.toList_push, List.map_append, tracks.instructions,
      Emission.instructions_append_singleton, real, given]
    rfl
  accepted := along_append_singleton.mpr ⟨tracks.accepted, accepted⟩

private theorem Tracks.add (live : b.stage = .live) (tracks : b.problems.toList = [] → Tracks es b)
    {i : Instruction} (unnamed : e.localName? = none) (real : e.isParameter = false)
    (given : e.instruction? (Emission.locals (es ++ [e])) = some i) (accepted : e.Accepted es)
    (clean : (b.add i).builder.problems.toList = []) : Tracks (es ++ [e]) (b.add i).builder := by
  have added : b.add i = { builder := { b with instructions := b.instructions.push i } } := by
    simp only [MethodBuilder.add, live]
  rw [added] at clean ⊢
  have before := tracks clean
  refine before.append_instruction ?_ rfl real given accepted
  rw [Emission.locals_append_of_none unnamed]
  exact before.locals

private theorem withTexts_of_clean (live : b.stage = .live) {what : Text} {texts : List Text}
    {go : Emitted} (clean : (b.withTexts what texts go).builder.problems.toList = []) :
    (∀ text ∈ texts, Utf8.isValid text = true) ∧ b.withTexts what texts go = go := by
  cases rejected : texts.findSome? (invalidText? what) with
  | some c =>
    have failed : b.withTexts what texts go = { builder := b.fail c } := by
      simp [withTexts, rejected, rejectText, live]
    rw [failed] at clean
    exact absurd clean (problems_fail_ne_nil b c)
  | none =>
    refine ⟨fun text member => ?_, by simp only [withTexts, rejected]⟩
    exact valid_of_invalidText?_eq_none (List.findSome?_eq_none_iff.mp rejected text member)

theorem Tracks.emit (live : b.stage = .live) (tracks : b.problems.toList = [] → Tracks es b)
    (clean : (b.emit e).builder.problems.toList = []) : Tracks (es ++ [e]) (b.emit e).builder := by
  cases e with
  | instruction i =>
    cases i with
    | none => exact absurd clean (problems_fail_ne_nil b _)
    | some i => exact Tracks.add live tracks rfl rfl rfl rfl clean
  | parameter name =>
    rw [MethodBuilder.emit] at clean ⊢
    split_ifs at clean ⊢ with known
    · exact absurd clean (problems_fail_ne_nil b _)
    · obtain ⟨empty, room, locals, -⟩ := slotFor_of_clean clean
      have before := tracks empty
      have fresh : name ∉ b.locals.toList := by
        rw [Option.not_isSome_iff_eq_none] at known
        exact List.idxOf?_eq_none_iff.mp known
      rw [if_neg fresh] at locals
      rw [before.locals] at fresh room locals
      refine ⟨?_, ?_, ?_⟩
      · rw [Emission.locals_append_of_notMem rfl fresh]
        exact locals
      · dsimp only
        rw [instructions_slotFor, Emission.instructions_append_singleton]
        exact before.instructions.trans (List.append_nil _).symm
      · exact along_append_singleton.mpr
          ⟨before.accepted, fresh, room.resolve_left fresh⟩
  | localVariable op name =>
    have live' := (stage_slotFor b name).trans live
    have added : b.emit (.localVariable op name) = { builder :=
        { (b.slotFor name).1 with
          instructions := (b.slotFor name).1.instructions.push
            (.slot op (b.slotFor name).2) } } := by
      simp only [MethodBuilder.emit, MethodBuilder.add, live']
    rw [added] at clean ⊢
    obtain ⟨empty, room, locals, slot⟩ := slotFor_of_clean clean
    have before := tracks empty
    rw [before.locals] at room locals
    have named : (b.slotFor name).1.locals.toList =
        Emission.locals (es ++ [.localVariable op name]) := by
      rw [locals]
      split_ifs with known
      · exact (Emission.locals_append_of_mem rfl known).symm
      · exact (Emission.locals_append_of_notMem rfl known).symm
    refine before.append_instruction (i := .slot op (b.slotFor name).2) named ?_ rfl ?_ room
    · dsimp only
      rw [instructions_slotFor]
    · rw [slot, named]
      rfl
  | loadString text =>
    rw [MethodBuilder.emit] at clean ⊢
    obtain ⟨valid, same⟩ := withTexts_of_clean live clean
    rw [same] at clean ⊢
    exact Tracks.add live tracks rfl rfl rfl (valid text List.mem_cons_self) clean
  | loadInteger value =>
    rw [MethodBuilder.emit] at clean ⊢
    split_ifs at clean ⊢ with large
    · exact absurd clean (problems_fail_ne_nil b _)
    · exact Tracks.add live tracks rfl rfl rfl (by simp only [Emission.Accepted]; omega) clean
  | field op owner name descriptor =>
    rw [MethodBuilder.emit] at clean ⊢
    obtain ⟨valid, same⟩ := withTexts_of_clean live clean
    rw [same] at clean ⊢
    exact Tracks.add live tracks rfl rfl rfl valid clean
  | method op owner name descriptor =>
    rw [MethodBuilder.emit] at clean ⊢
    obtain ⟨valid, same⟩ := withTexts_of_clean live clean
    rw [same] at clean ⊢
    exact Tracks.add live tracks rfl rfl rfl valid clean
  | bare op => exact Tracks.add live tracks rfl rfl rfl trivial clean

end MethodBuilder

end JvmAssembler
