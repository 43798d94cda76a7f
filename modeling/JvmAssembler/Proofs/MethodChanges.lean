import JvmAssembler.Proofs.BuilderHistory

/-!
# What happens to a method

A call leaves a method alone, closes it, or emits something to it. So what holds of a method that
was just begun, and is kept by closing and by each emission, holds of all methods after every
history. What was noted as a problem of a method is never taken back and makes its end fail.
-/

set_option autoImplicit false
set_option relaxedAutoImplicit false

namespace JvmAssembler

def emittedTo (m : MethodId) (calls : List Call) : List Emission :=
  calls.filterMap (Call.emission? m)

private theorem emittedTo_append_singleton {m : MethodId} {calls : List Call} {call : Call} :
    emittedTo m (calls ++ [call]) = emittedTo m calls ++ (call.emission? m).toList := by
  rw [emittedTo, List.filterMap_append]
  cases emitted : call.emission? m with
  | none => simp [emitted, emittedTo]
  | some e => simp [emitted, emittedTo]

private theorem emittedTo_eq_nil {m : MethodId} {calls : List Call} (legal : Along Call.Legal calls)
    (later : (methodsBegun calls).length ≤ m) : emittedTo m calls = [] := by
  have never : .endMethod m ∉ calls := by
    intro ended
    exact absurd (lt_of_endMethod_mem legal ended) (Nat.not_lt.mpr later)
  have nothing := emissionsOf_eq_nil legal later
  rw [emissionsOf, beforeEnd_of_notMem never] at nothing
  exact nothing

namespace MethodBuilder

/-- What a method can become without the use of a name: problems are never taken back. -/
structure Grown (b b' : MethodBuilder) : Prop where
  locals : b'.locals = b.locals
  problems : ∃ more, b'.problems.toList = b.problems.toList ++ more

private theorem grown_self (b : MethodBuilder) : b.Grown b := ⟨rfl, [], (List.append_nil _).symm⟩

private theorem grown_fail (b : MethodBuilder) (c : Cause) : b.Grown (b.fail c) :=
  ⟨rfl, [c], Trail.toList_push _ _⟩

theorem grown_add (b : MethodBuilder) (i : Instruction) : b.Grown (b.add i).builder := by
  rw [add]
  split
  · exact grown_self b
  · exact ⟨rfl, [], (List.append_nil _).symm⟩
  · exact grown_self b

private theorem grown_withTexts (b : MethodBuilder) (what : Text) (texts : List Text)
    {go : Emitted} (goes : b.Grown go.builder) :
    b.Grown (b.withTexts what texts go).builder := by
  rw [withTexts]
  split
  · rw [rejectText]
    split_ifs
    · exact grown_self b
    · exact grown_fail b _
  · exact goes

theorem grown_emit (b : MethodBuilder) {e : Emission} (unnamed : e.localName? = none) :
    b.Grown (b.emit e).builder := by
  cases e with
  | instruction i =>
    cases i with
    | none => exact grown_fail b _
    | some i => exact grown_add b i
  | parameter name => cases unnamed
  | localVariable op name => cases unnamed
  | loadString text => exact grown_withTexts b _ _ (grown_add b _)
  | loadInteger value =>
    rw [emit]
    split_ifs
    · exact grown_fail b _
    · exact grown_add b _
  | field op owner name descriptor => exact grown_withTexts b _ _ (grown_add b _)
  | method op owner name descriptor => exact grown_withTexts b _ _ (grown_add b _)
  | bare op => exact grown_add b _

private theorem exists_problems_slotFor (b : MethodBuilder) (name : Text) :
    ∃ more, (b.slotFor name).1.problems.toList = b.problems.toList ++ more := by
  rw [slotFor]
  split
  · exact ⟨[], (List.append_nil _).symm⟩
  · dsimp only
    split_ifs
    · exact ⟨_, Trail.toList_push _ _⟩
    · exact ⟨[], (List.append_nil _).symm⟩

private theorem exists_problems_emit (b : MethodBuilder) (e : Emission) :
    ∃ more, (b.emit e).builder.problems.toList = b.problems.toList ++ more := by
  cases e with
  | parameter name =>
    rw [emit]
    split_ifs
    · exact (grown_fail b _).problems
    · exact exists_problems_slotFor b name
  | localVariable op name =>
    obtain ⟨named, first⟩ := exists_problems_slotFor b name
    obtain ⟨added, second⟩ := (grown_add (b.slotFor name).1 (.slot op (b.slotFor name).2)).problems
    refine ⟨named ++ added, ?_⟩
    rw [← List.append_assoc, ← first]
    exact second
  | _ => exact (grown_emit b rfl).problems

end MethodBuilder

namespace Assembler

/-- What a call makes of a method that was begun before it. -/
inductive MethodChange (m : MethodId) (b : MethodBuilder) (call : Call) : MethodBuilder → Prop where
  | kept (silent : call.emission? m = none) : MethodChange m b call b
  | closed (silent : call.emission? m = none) : MethodChange m b call { b with stage := .closed }
  | emitted (e : Emission) (given : call.emission? m = some e) :
    MethodChange m b call (b.emit e).builder

section

variable {a : Assembler} {m : MethodId} {b : MethodBuilder}

private theorem methodChange_of_closed {call : Call} (silent : call.emission? m = none)
    (found : a.methods[m]? = some b) {k : MethodId} (closes : (a.step call).methods =
      a.methods.modify k fun b => { b with stage := .closed }) :
    ∃ b', (a.step call).methods[m]? = some b' ∧ MethodChange m b call b' := by
  rw [closes, Array.getElem?_modify, found]
  split_ifs
  · exact ⟨_, rfl, .closed silent⟩
  · exact ⟨b, rfl, .kept silent⟩

private theorem exists_methodChange (found : a.methods[m]? = some b) (call : Call) :
    ∃ b', (a.step call).methods[m]? = some b' ∧ MethodChange m b call b' := by
  cases call with
  | beginClass name access supers => exact ⟨b, found, .kept rfl⟩
  | beginMethod c access name descriptor =>
    obtain ⟨b', pushed, -⟩ := exists_push_of_beginMethod a c access name descriptor
    rw [step, pushed]
    exact ⟨b, getElem?_push_of_some found b', .kept rfl⟩
  | emit k e =>
    by_cases here : k = m
    · subst here
      rw [step, methods_emit found, Array.getElem?_modify, if_pos rfl, found]
      exact ⟨_, rfl, .emitted e (if_pos rfl)⟩
    · refine ⟨b, ?_, .kept (if_neg here)⟩
      cases other : a.methods[k]? with
      | none =>
        rw [step, emit_of_getElem?_eq_none other]
        exact found
      | some b' =>
        rw [step, methods_emit other, Array.getElem?_modify, if_neg here]
        exact found
  | endMethod k =>
    rcases endMethod_cases a k with ⟨-, same⟩ | ⟨b', here, live⟩
    · rw [step, same]
      exact ⟨b, found, .kept rfl⟩
    · refine methodChange_of_closed rfl found (k := k) ?_
      rw [step, endMethod_of_live here live]
      exact (endLiveMethod_cases a k b').1
  | endClass c =>
    rcases endClass_cases a c with ⟨-, same⟩ | ⟨B, -, -, methods⟩
    · rw [step, same]
      exact ⟨b, found, .kept rfl⟩
    · cases inside : B.openMethod with
      | none =>
        rw [inside] at methods
        rw [step, methods]
        exact ⟨b, found, .kept rfl⟩
      | some k =>
        rw [inside] at methods
        exact methodChange_of_closed rfl found methods
  | refer s => exact ⟨b, found, .kept rfl⟩

private theorem begun_of_new {call : Call} (found : (a.step call).methods[m]? = some b)
    (new : ¬ m < a.methods.size) : m = a.methods.size ∧ call.emission? m = none ∧
      ∃ owner access name descriptor stage, b = { owner, access, name, descriptor, stage } := by
  cases begun : call.begunMethod? with
  | none =>
    obtain ⟨k, f, change⟩ := exists_methodStep a begun
    obtain ⟨inside, -⟩ := Array.getElem?_eq_some_iff.mp found
    rw [change.methods, Array.size_modify] at inside
    exact absurd inside new
  | some g =>
    cases call with
    | beginMethod c access name descriptor =>
      have last : ∀ b', (a.methods.push b')[m]? = some b → m = a.methods.size ∧ b' = b := by
        intro b' here
        rw [Array.getElem?_push] at here
        split_ifs at here with index
        · exact ⟨index, Option.some.inj here⟩
        · exact absurd (Array.getElem?_eq_some_iff.mp here).1 new
      rcases beginMethod_cases a c access name descriptor with ⟨f, methods, -⟩ | ⟨-, methods, -⟩
      · rw [step, methods] at found
        obtain ⟨index, rfl⟩ := last _ found
        exact ⟨index, rfl, c, access, name, descriptor, .detached, rfl⟩
      · rw [step, methods] at found
        obtain ⟨index, rfl⟩ := last _ found
        exact ⟨index, rfl, c, access, name, descriptor, .live, rfl⟩
    | _ => cases begun

/-- Every method of every history, by what can happen to it. -/
theorem method_induction (o : Options) {P : List Emission → MethodBuilder → Prop}
    (begun : ∀ owner access name descriptor stage,
      P [] { owner, access, name, descriptor, stage })
    (closed : ∀ es b, P es b → P es { b with stage := .closed })
    (emitted : ∀ es b e, P es b → P (es ++ [e]) (b.emit e).builder) {calls : List Call}
    (legal : Along Call.Legal calls) (found : (run { options := o } calls).methods[m]? = some b) :
    P (emittedTo m calls) b := by
  induction calls using List.reverseRecOn generalizing b with
  | nil => cases found
  | append_singleton calls call ih =>
    obtain ⟨before, -⟩ := along_append_singleton.mp legal
    have size := congrArg List.length (map_begun_run o calls)
    rw [List.length_map, Array.length_toList] at size
    rw [run_append_singleton] at found
    rw [emittedTo_append_singleton]
    by_cases old : m < (run { options := o } calls).methods.size
    · have here := Array.getElem?_eq_getElem old
      have holds := ih before here
      obtain ⟨b', found', change⟩ := exists_methodChange here call
      rw [found] at found'
      cases found'
      cases change with
      | kept silent =>
        rw [silent, Option.toList_none, List.append_nil]
        exact holds
      | closed silent =>
        rw [silent, Option.toList_none, List.append_nil]
        exact closed _ _ holds
      | emitted e given =>
        rw [given]
        exact emitted _ _ e holds
    · obtain ⟨index, silent, owner, access, name, descriptor, stage, rfl⟩ := begun_of_new found old
      rw [silent, emittedTo_eq_nil before (Nat.le_of_eq (size.symm.trans index.symm))]
      exact begun owner access name descriptor stage

/-! ### Problems that were noted -/

def Flawed (a : Assembler) (m : MethodId) : Prop :=
  ∃ b, a.methods[m]? = some b ∧ b.problems.toList ≠ []

private theorem Flawed.step (flawed : a.Flawed m) (call : Call) : (a.step call).Flawed m := by
  obtain ⟨b, found, problems⟩ := flawed
  obtain ⟨b', after, change⟩ := exists_methodChange found call
  refine ⟨b', after, ?_⟩
  cases change with
  | kept => exact problems
  | closed => exact problems
  | emitted e given =>
    obtain ⟨more, grown⟩ := b.exists_problems_emit e
    rw [grown]
    exact List.append_ne_nil_of_left_ne_nil problems more

theorem Flawed.run (flawed : a.Flawed m) (calls : List Call) : (a.run calls).Flawed m := by
  induction calls generalizing a with
  | nil => exact flawed
  | cons call calls ih => exact ih (flawed.step call)

theorem endMethod_fails_of_problems
    (unfit : ∀ b, a.methods[m]? = some b → b.stage = .live → b.problems.toList ≠ []) :
    ∃ f, (a.endMethod m).1 = .error f ∧ f.kind = .precondition := by
  rw [endMethod]
  split
  · exact ⟨_, rfl, rfl⟩
  · rename_i b found
    split
    · exact ⟨_, rfl, rfl⟩
    · exact ⟨_, rfl, rfl⟩
    · rename_i live
      rw [endLiveMethod, closeMethod]
      dsimp only
      split
      · rename_i f reason
        refine ⟨f, rfl, ?_⟩
        split at reason
        · rename_i clean
          exact absurd (MethodBuilder.allProblems_eq_nil_iff.mp clean).1 (unfit b found live)
        · cases reason
          rfl
      · rename_i limits fine
        split at fine
        · rename_i clean
          exact absurd (MethodBuilder.allProblems_eq_nil_iff.mp clean).1 (unfit b found live)
        · cases fine

theorem Flawed.endMethod (flawed : a.Flawed m) :
    ∃ f, (a.endMethod m).1 = .error f ∧ f.kind = .precondition := by
  obtain ⟨b, found, problems⟩ := flawed
  apply endMethod_fails_of_problems
  intro b' found' _
  rw [found] at found'
  cases found'
  exact problems

end

end Assembler

end JvmAssembler
