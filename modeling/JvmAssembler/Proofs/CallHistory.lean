import Mathlib.Data.List.Induction
import Mathlib.Data.List.TakeWhile
import JvmAssembler.Assembler

/-!
# Histories of calls

What a list of calls says about the builders it is about: which classes and methods were begun, in
which order, and what was emitted to a method before it was ended.
-/

set_option autoImplicit false
set_option relaxedAutoImplicit false

namespace JvmAssembler

/-- Every item of a list stands in a relation to the items before it. -/
def Along {α : Type} (P : List α → α → Prop) (as : List α) : Prop :=
  ∀ (k : Nat) (h : k < as.length), P (as.take k) (as.get ⟨k, h⟩)

instance {α : Type} (P : List α → α → Prop) [∀ as a, Decidable (P as a)] (as : List α) :
    Decidable (Along P as) :=
  inferInstanceAs (Decidable (∀ (k : Nat) (h : k < as.length), P (as.take k) (as.get ⟨k, h⟩)))

theorem along_nil {α : Type} (P : List α → α → Prop) : Along P [] :=
  fun _ inside => absurd inside (Nat.not_lt_zero _)

theorem Along.of_append {α : Type} {P : List α → α → Prop} {as bs : List α}
    (along : Along P (as ++ bs)) : Along P as := by
  intro k inside
  have given := along k (by rw [List.length_append]; omega)
  rw [List.take_append_of_le_length (Nat.le_of_lt inside)] at given
  simpa [List.getElem_append_left inside] using given

theorem along_append_singleton {α : Type} {P : List α → α → Prop} {as : List α} {a : α} :
    Along P (as ++ [a]) ↔ Along P as ∧ P as a := by
  constructor
  · intro along
    refine ⟨along.of_append, ?_⟩
    have given := along as.length (by simp)
    rw [List.take_left] at given
    simpa using given
  · rintro ⟨along, last⟩ k inside
    rcases Nat.lt_or_ge k as.length with before | after
    · rw [List.take_append_of_le_length (Nat.le_of_lt before)]
      simpa [List.getElem_append_left before] using along k before
    · have here : k = as.length := by
        rw [List.length_append, List.length_singleton] at inside
        omega
      subst here
      rw [List.take_left]
      simpa using last

private theorem Along.exists_of_mem {α : Type} {P : List α → α → Prop} {as : List α} {a : α}
    (along : Along P as) (member : a ∈ as) : ∃ earlier, earlier <+: as ∧ P earlier a := by
  obtain ⟨k, inside, rfl⟩ := List.getElem_of_mem member
  exact ⟨as.take k, List.take_prefix k as, along k inside⟩

theorem Assembler.run_append (a : Assembler) (calls later : List Call) :
    a.run (calls ++ later) = (a.run calls).run later := List.foldl_append

theorem Assembler.run_append_singleton (a : Assembler) (calls : List Call) (call : Call) :
    a.run (calls ++ [call]) = (a.run calls).step call := a.run_append calls [call]

structure BegunClass where
  name : Text
  access : AccessFlags
  supers : List Text
deriving DecidableEq

structure BegunMethod where
  owner : ClassId
  access : AccessFlags
  name : Text
  descriptor : Text
deriving DecidableEq

namespace Call

def begunClass? : Call → Option BegunClass
  | .beginClass name access supers => some ⟨name, access, supers⟩
  | _ => none

def begunMethod? : Call → Option BegunMethod
  | .beginMethod c access name descriptor => some ⟨c, access, name, descriptor⟩
  | _ => none

def emission? (m : MethodId) : Call → Option Emission
  | .emit m' e => if m' = m then some e else none
  | _ => none

end Call

def classesBegun (calls : List Call) : List BegunClass := calls.filterMap Call.begunClass?

def methodsBegun (calls : List Call) : List BegunMethod := calls.filterMap Call.begunMethod?

def begunOn (c : ClassId) (calls : List Call) : List (BegunMethod × MethodId) :=
  (methodsBegun calls).zipIdx.filter fun item => item.1.owner = c

/-- The calls before a method is ended for the first time. -/
def beforeEnd (m : MethodId) (calls : List Call) : List Call :=
  calls.takeWhile fun call => call ≠ .endMethod m

def emissionsOf (m : MethodId) (calls : List Call) : List Emission :=
  (beforeEnd m calls).filterMap (Call.emission? m)

def Call.Legal (earlier : List Call) : Call → Prop
  | .beginMethod c _ _ _ => c < (classesBegun earlier).length
  | .endClass c => c < (classesBegun earlier).length
  | .emit m _ => m < (methodsBegun earlier).length
  | .endMethod m => m < (methodsBegun earlier).length
  | .beginClass _ _ _ => True
  | .refer _ => True

instance (earlier : List Call) : (call : Call) → Decidable (call.Legal earlier)
  | .beginMethod c _ _ _ | .endClass c =>
    inferInstanceAs (Decidable (c < (classesBegun earlier).length))
  | .emit m _ | .endMethod m => inferInstanceAs (Decidable (m < (methodsBegun earlier).length))
  | .beginClass _ _ _ | .refer _ => isTrue trivial

/-- A method is begun on a class only when those begun on it before were ended. -/
def Call.Sequential (c : ClassId) (earlier : List Call) : Call → Prop
  | .beginMethod c' _ _ _ => c' = c → ∀ item ∈ begunOn c earlier, .endMethod item.2 ∈ earlier
  | _ => True

section

variable {calls : List Call} {call : Call} {c : ClassId} {m : MethodId}

theorem classesBegun_append_singleton :
    classesBegun (calls ++ [call]) = classesBegun calls ++ call.begunClass?.toList := by
  rw [classesBegun, List.filterMap_append]
  cases call <;> rfl

theorem methodsBegun_append_singleton :
    methodsBegun (calls ++ [call]) = methodsBegun calls ++ call.begunMethod?.toList := by
  rw [methodsBegun, List.filterMap_append]
  cases call <;> rfl

theorem begunOn_append_of_none (other : call.begunMethod? = none) :
    begunOn c (calls ++ [call]) = begunOn c calls := by
  rw [begunOn, methodsBegun_append_singleton, other, Option.toList_none, List.append_nil]
  rfl

theorem begunOn_append_of_some {g : BegunMethod} (begun : call.begunMethod? = some g) :
    begunOn c (calls ++ [call]) =
      begunOn c calls ++ if g.owner = c then [(g, (methodsBegun calls).length)] else [] := by
  rw [begunOn, methodsBegun_append_singleton, begun, Option.toList_some, List.zipIdx_append,
    List.filter_append]
  congr 1
  split_ifs with here
  · simp [here]
  · simp [here]

theorem mem_begunOn {g : BegunMethod} :
    (g, m) ∈ begunOn c calls ↔ (methodsBegun calls)[m]? = some g ∧ g.owner = c := by
  rw [begunOn, List.mem_filter, List.mem_zipIdx_iff_getElem?, decide_eq_true_eq]

theorem beforeEnd_append_of_notMem (never : .endMethod m ∉ calls) (later : List Call) :
    beforeEnd m (calls ++ later) = calls ++ beforeEnd m later := by
  apply List.takeWhile_append_of_pos
  intro call member
  rw [decide_eq_true_eq]
  rintro rfl
  exact never member

theorem beforeEnd_of_notMem (never : .endMethod m ∉ calls) : beforeEnd m calls = calls := by
  have all := beforeEnd_append_of_notMem never []
  rw [List.append_nil] at all
  exact all.trans (List.append_nil calls)

theorem beforeEnd_append_of_mem (ended : .endMethod m ∈ calls) (later : List Call) :
    beforeEnd m (calls ++ later) = beforeEnd m calls := by
  have stops : ¬ (calls.takeWhile fun call => call ≠ .endMethod m).length = calls.length := by
    intro whole
    have all := List.takeWhile_eq_self_iff.mp
      ((List.takeWhile_prefix _).eq_of_length whole)
    simpa using all _ ended
  rw [beforeEnd, List.takeWhile_append, if_neg stops]
  rfl

theorem emissionsOf_append_of_mem (ended : .endMethod m ∈ calls) (later : List Call) :
    emissionsOf m (calls ++ later) = emissionsOf m calls := by
  rw [emissionsOf, beforeEnd_append_of_mem ended]
  rfl

theorem emissionsOf_append_of_notMem (never : .endMethod m ∉ calls) :
    emissionsOf m (calls ++ [call]) = emissionsOf m calls ++ (call.emission? m).toList := by
  rw [emissionsOf, emissionsOf, beforeEnd_append_of_notMem never, beforeEnd_of_notMem never,
    List.filterMap_append]
  congr 1
  by_cases last : call = .endMethod m
  · subst last
    simp [beforeEnd, Call.emission?]
  · rw [beforeEnd_of_notMem (by simpa using Ne.symm last)]
    cases given : call.emission? m with
    | none => simp [given]
    | some e => simp [given]

theorem mem_begunOn_append {item : BegunMethod × MethodId} (member : item ∈ begunOn c calls) :
    item ∈ begunOn c (calls ++ [call]) := by
  cases begun : call.begunMethod? with
  | none => rwa [begunOn_append_of_none begun]
  | some g =>
    rw [begunOn_append_of_some begun]
    exact List.mem_append_left _ member

private theorem length_classesBegun_le {earlier : List Call} (pre : earlier <+: calls) :
    (classesBegun earlier).length ≤ (classesBegun calls).length :=
  (pre.sublist.filterMap _).length_le

private theorem length_methodsBegun_le {earlier : List Call} (pre : earlier <+: calls) :
    (methodsBegun earlier).length ≤ (methodsBegun calls).length :=
  (pre.sublist.filterMap _).length_le

section Legal

variable (legal : Along Call.Legal calls)
include legal

theorem owner_lt_of_legal {g : BegunMethod} (begun : g ∈ methodsBegun calls) :
    g.owner < (classesBegun calls).length := by
  obtain ⟨call, member, given⟩ := List.mem_filterMap.mp begun
  obtain ⟨earlier, pre, here⟩ := legal.exists_of_mem member
  cases call with
  | beginMethod c access name descriptor =>
    cases given
    exact Nat.lt_of_lt_of_le here (length_classesBegun_le pre)
  | _ => cases given

theorem lt_of_endMethod_mem (member : .endMethod m ∈ calls) : m < (methodsBegun calls).length := by
  obtain ⟨earlier, pre, here⟩ := legal.exists_of_mem member
  exact Nat.lt_of_lt_of_le here (length_methodsBegun_le pre)

private theorem lt_of_emit_mem {e : Emission} (member : .emit m e ∈ calls) :
    m < (methodsBegun calls).length := by
  obtain ⟨earlier, pre, here⟩ := legal.exists_of_mem member
  exact Nat.lt_of_lt_of_le here (length_methodsBegun_le pre)

theorem emissionsOf_eq_nil (later : (methodsBegun calls).length ≤ m) :
    emissionsOf m calls = [] := by
  rw [emissionsOf, List.filterMap_eq_nil_iff]
  intro call member
  cases call with
  | emit m' e =>
    have early := lt_of_emit_mem legal ((List.takeWhile_prefix _).subset member)
    have other : m' ≠ m := by
      rintro rfl
      exact Nat.not_lt.mpr later early
    exact if_neg other
  | _ => rfl

theorem begunOn_eq_nil (later : (classesBegun calls).length ≤ c) : begunOn c calls = [] := by
  rw [List.eq_nil_iff_forall_not_mem]
  rintro ⟨g, m⟩ member
  obtain ⟨begun, owner⟩ := mem_begunOn.mp member
  have early := owner_lt_of_legal legal (List.mem_of_getElem? begun)
  rw [owner] at early
  exact Nat.not_lt.mpr later early

theorem sequential_of_later (later : (classesBegun calls).length ≤ c) :
    Along (Call.Sequential c) calls := by
  intro k inside
  have here := legal k inside
  have fewer := length_classesBegun_le (List.take_prefix k calls)
  generalize calls.get ⟨k, inside⟩ = call at here
  cases call with
  | beginMethod c' access name descriptor =>
    intro same
    have early : c' < (classesBegun (calls.take k)).length := here
    rw [same] at early
    exact absurd (Nat.lt_of_lt_of_le early fewer) (Nat.not_lt.mpr later)
  | _ => trivial

end Legal

end

end JvmAssembler
