import JvmAssembler.Proofs.EndEffects
import JvmAssembler.Proofs.FrozenClasses

/-!
# The life of builders

Builders can be kept and called in any order. A method takes instructions only while it is the open
one of a class that was not ended, so that at most one method of a class can still be ended. The
finished class is the one that the end of the first class gave, and nothing replaces it.
-/

set_option autoImplicit false
set_option relaxedAutoImplicit false

namespace JvmAssembler

namespace Assembler

section

variable {a : Assembler} {c : ClassId} {m : MethodId}

private theorem exists_live_of_endMethod_ok (ok : (a.endMethod m).1 = .ok ()) :
    ∃ b, a.methods[m]? = some b ∧ b.stage = .live := by
  have outcome := a.methodEnd m
  generalize a.endMethod m = result at outcome ok
  cases outcome with
  | taken b found live => exact ⟨b, found, live⟩
  | _ => cases ok

private theorem exists_error_of_not_live (dead : ∀ b, a.methods[m]? = some b → b.stage ≠ .live) :
    ∃ f, (a.endMethod m).1 = .error f := by
  cases result : (a.endMethod m).1 with
  | error f => exact ⟨f, rfl⟩
  | ok =>
    obtain ⟨b, found, live⟩ := exists_live_of_endMethod_ok result
    exact absurd live (dead b found)

private theorem Settled.exists_error (settled : a.Settled m) :
    ∃ f, (a.endMethod m).1 = .error f := by
  obtain ⟨b, found, stage⟩ := settled
  apply exists_error_of_not_live
  intro b' found'
  rw [Option.some.inj (found'.symm.trans found)]
  exact stage

private theorem Settled.run (settled : a.Settled m) (calls : List Call) :
    (a.run calls).Settled m := by
  induction calls generalizing a with
  | nil => exact settled
  | cons call calls ih => exact ih (settled.step call)

/-! ### A live method is the open one of its class -/

def LiveIsOpen (a : Assembler) : Prop :=
  ∀ (m : MethodId) (b : MethodBuilder), a.methods[m]? = some b → b.stage = .live →
    ∃ B, a.classes[b.owner]? = some B ∧ B.ended = false ∧ B.openMethod = some m

private theorem exists_live_before (call : Call) (other : call.begunMethod? = none)
    {b : MethodBuilder} (found : (a.step call).methods[m]? = some b) (live : b.stage = .live) :
    ∃ b₀, a.methods[m]? = some b₀ ∧ b₀.stage = .live ∧ b₀.owner = b.owner := by
  obtain ⟨k, f, change⟩ := exists_methodStep a other
  rw [change.methods, Array.getElem?_modify] at found
  split_ifs at found
  · obtain ⟨b₀, before, rfl⟩ := Option.map_eq_some_iff.mp found
    exact ⟨b₀, before, change.live b₀ live, congrArg BegunMethod.owner (change.begun b₀).symm⟩
  · exact ⟨b, found, live, rfl⟩

private theorem exists_open_of_fail {classes : Array ClassBuilder} {k : ClassId} {B : ClassBuilder}
    (found : classes[k]? = some B) (running : B.ended = false) (inside : B.openMethod = some m)
    (c : ClassId) (f : Failure) : ∃ B', (classes.modify c (·.fail f))[k]? = some B' ∧
      B'.ended = false ∧ B'.openMethod = some m := by
  rw [Array.getElem?_modify, found]
  split_ifs
  · exact ⟨B.fail f, rfl, running, inside⟩
  · exact ⟨B, rfl, running, inside⟩

private theorem LiveIsOpen.beginMethod (invariant : a.LiveIsOpen) (begun : c < a.classes.size)
    (access : AccessFlags) (name descriptor : Text) :
    (a.beginMethod c access name descriptor).2.LiveIsOpen := by
  intro m b found live
  rcases beginMethod_cases a c access name descriptor with
    ⟨f, methods, classes⟩ | ⟨idle, methods, classes⟩
  · rw [methods, Array.getElem?_push] at found
    rw [classes]
    split_ifs at found
    · cases found
      cases live
    · obtain ⟨B, here, running, inside⟩ := invariant m b found live
      exact exists_open_of_fail here running inside c f
  · rw [methods, Array.getElem?_push] at found
    rw [classes, Array.getElem?_modify]
    split_ifs at found with new
    · cases found
      have here : a.classes[c]? = some a.classes[c] := Array.getElem?_eq_getElem begun
      rw [if_pos rfl, here, new]
      exact ⟨_, rfl, (idle _ here).1, rfl⟩
    · obtain ⟨B, here, running, inside⟩ := invariant m b found live
      have other : c ≠ b.owner := by
        rintro rfl
        rw [(idle B here).2] at inside
        cases inside
      rw [if_neg other]
      exact ⟨B, here, running, inside⟩

/-- Two live methods of one class would both be its open one, so ending one of them takes the open
place from no other. -/
private theorem LiveIsOpen.endMethod (invariant : a.LiveIsOpen) (k : MethodId) :
    (a.endMethod k).2.LiveIsOpen := by
  rcases endMethod_cases a k with ⟨-, same⟩ | ⟨closing, here, alive⟩
  · rw [same]
    exact invariant
  · intro m b found live
    obtain ⟨b₀, before, live₀, owner⟩ := exists_live_before (.endMethod k) rfl found live
    obtain ⟨B, class_, running, inside⟩ := invariant m b₀ before live₀
    rw [owner] at class_
    have ended := endMethod_of_live here alive
    obtain ⟨methods, classes⟩ := endLiveMethod_cases a k closing
    have other : closing.owner ≠ b.owner := by
      intro same
      obtain ⟨B', class', -, inside'⟩ := invariant k closing here alive
      rw [same, class_] at class'
      cases class'
      have index : m = k := Option.some.inj (inside.symm.trans inside')
      subst index
      rw [ended, methods, Array.getElem?_modify, if_pos rfl, before] at found
      cases found
      cases live
    have kept : (a.endMethod k).2.classes[b.owner]? = some B := by
      rw [ended]
      rcases classes with ⟨f, classes⟩ | ⟨limits, -, -, classes⟩
      · rw [classes, Array.getElem?_modify, if_neg other, Array.getElem?_modify, if_neg other]
        exact class_
      · rw [classes, Array.getElem?_modify, if_neg other, Array.getElem?_modify, if_neg other]
        exact class_
    exact ⟨B, kept, running, inside⟩

private theorem LiveIsOpen.endClass (invariant : a.LiveIsOpen) (c : ClassId) :
    (a.endClass c).2.LiveIsOpen := by
  rcases endClass_cases a c with ⟨-, same⟩ | ⟨closing, here, classes, methods⟩
  · rw [same]
    exact invariant
  · intro m b found live
    obtain ⟨b₀, before, live₀, owner⟩ := exists_live_before (.endClass c) rfl found live
    obtain ⟨B, class_, running, inside⟩ := invariant m b₀ before live₀
    rw [owner] at class_
    have other : c ≠ b.owner := by
      rintro rfl
      rw [here] at class_
      cases class_
      -- The open method is closed with its class.
      rw [methods, inside] at found
      change (a.methods.modify m fun b => { b with stage := .closed })[m]? = some b at found
      rw [Array.getElem?_modify, if_pos rfl, before] at found
      cases found
      cases live
    rw [classes, Array.getElem?_modify, if_neg other]
    exact ⟨B, class_, running, inside⟩

private theorem LiveIsOpen.step (invariant : a.LiveIsOpen) {call : Call}
    (begun : ∀ c access name descriptor, call = .beginMethod c access name descriptor →
      c < a.classes.size) : (a.step call).LiveIsOpen := by
  cases call with
  | beginClass name access supers =>
    intro m b found live
    obtain ⟨B, here, running, inside⟩ := invariant m b found live
    exact ⟨B, getElem?_push_of_some here _, running, inside⟩
  | beginMethod c access name descriptor =>
    exact invariant.beginMethod (begun c access name descriptor rfl) access name descriptor
  | emit k e =>
    intro m b found live
    obtain ⟨b₀, before, live₀, owner⟩ := exists_live_before (.emit k e) rfl found live
    obtain ⟨B, here, running, inside⟩ := invariant m b₀ before live₀
    rw [owner] at here
    cases method : a.methods[k]? with
    | none =>
      rw [Assembler.step, emit_of_getElem?_eq_none method]
      exact ⟨B, here, running, inside⟩
    | some target =>
      rcases classes_emit method e with same | ⟨f, classes⟩
      · rw [Assembler.step, same]
        exact ⟨B, here, running, inside⟩
      · rw [Assembler.step, classes]
        exact exists_open_of_fail here running inside target.owner f
  | endMethod k => exact invariant.endMethod k
  | endClass c => exact invariant.endClass c
  | refer s => exact invariant

end

section

variable {o : Options} {calls : List Call} {c : ClassId} {m : MethodId}

private theorem liveIsOpen_run (o : Options) (legal : Along Call.Legal calls) :
    (run { options := o } calls).LiveIsOpen := by
  induction calls using List.reverseRecOn with
  | nil =>
    intro m b found
    cases found
  | append_singleton calls call ih =>
    obtain ⟨before, last⟩ := along_append_singleton.mp legal
    rw [run_append_singleton]
    apply (ih before).step
    rintro c access name descriptor rfl
    rw [(recorded_run o before).classes_size]
    exact last

/-! ### Classes after their end -/

private theorem exists_ended_of_endClass_mem (o : Options) (legal : Along Call.Legal calls)
    (ended : .endClass c ∈ calls) :
    ∃ B, (run { options := o } calls).classes[c]? = some B ∧ B.ended = true := by
  induction calls using List.reverseRecOn with
  | nil => cases ended
  | append_singleton calls call ih =>
    obtain ⟨before, last⟩ := along_append_singleton.mp legal
    rw [run_append_singleton]
    by_cases early : .endClass c ∈ calls
    · obtain ⟨B, found, past⟩ := ih before early
      obtain ⟨B', after, kept⟩ := exists_class_step found call
      exact ⟨B', after, kept past⟩
    · have here : call = .endClass c := by
        rcases List.mem_append.mp ended with member | member
        · exact absurd member early
        · exact (List.mem_singleton.mp member).symm
      subst here
      have inside : c < (run { options := o } calls).classes.size := by
        rw [(recorded_run o before).classes_size]
        exact last
      have found := Array.getElem?_eq_getElem inside
      rcases endClass_cases (run { options := o } calls) c with ⟨past, same⟩ | ⟨B, -, classes, -⟩
      · rw [step, same]
        exact ⟨_, found, past _ found⟩
      · rw [step, classes, Array.getElem?_modify, if_pos rfl, found]
        exact ⟨_, rfl, rfl⟩

private theorem exists_error_of_endClass_mem (o : Options) (legal : Along Call.Legal calls)
    (ended : .endClass c ∈ calls) :
    ∃ f, ((run { options := o } calls).endClass c).1 = .error f := by
  obtain ⟨B, found, past⟩ := exists_ended_of_endClass_mem o legal ended
  obtain ⟨f, failed, -⟩ := Spoiled.endClass ⟨B, found, Or.inl past⟩
  exact ⟨f, failed⟩

private theorem frozen_of_endClass_mem (o : Options) (legal : Along Call.Legal calls)
    (ended : .endClass c ∈ calls) : (run { options := o } calls).Frozen c where
  ended := exists_ended_of_endClass_mem o legal ended
  settled m b found owner live := by
    obtain ⟨B, here, past⟩ := exists_ended_of_endClass_mem o legal ended
    obtain ⟨B', here', running, -⟩ := liveIsOpen_run o legal m b found live
    rw [owner, here] at here'
    cases here'
    rw [past] at running
    cases running

private theorem spoiled_of_ne_zero (o : Options) (calls : List Call) (other : c ≠ 0)
    (inside : c < (run { options := o } calls).classes.size) :
    (run { options := o } calls).Spoiled c := by
  induction calls using List.reverseRecOn with
  | nil => simp [run] at inside
  | append_singleton calls call ih =>
    rw [run_append_singleton] at inside ⊢
    generalize run { options := o } calls = a at ih inside ⊢
    by_cases old : c < a.classes.size
    · exact (ih old).step call
    · cases begun : call.begunClass? with
      | none =>
        obtain ⟨k, f, update⟩ := exists_classUpdate a begun
        rw [update.classes, Array.size_modify] at inside
        exact absurd inside old
      | some g =>
        cases call with
        | beginClass name access supers =>
          change c < (a.classes.push _).size at inside
          rw [Array.size_push] at inside
          have last : c = a.classes.size :=
            Nat.le_antisymm (Nat.le_of_lt_succ inside) (Nat.le_of_not_lt old)
          subst last
          have first := Array.getElem?_eq_getElem (Nat.pos_of_ne_zero other)
          refine ⟨_, Array.getElem?_push_size, Or.inr ?_⟩
          simp [beginClassProblem?, first, Trail.toList]
        | _ => cases begun

private theorem exists_error_of_ne_zero (o : Options) (calls : List Call) (other : c ≠ 0) :
    ∃ f, ((run { options := o } calls).endClass c).1 = .error f := by
  by_cases inside : c < (run { options := o } calls).classes.size
  · obtain ⟨f, failed, -⟩ := (spoiled_of_ne_zero o calls other inside).endClass
    exact ⟨f, failed⟩
  · have missing := Array.getElem?_eq_none (Nat.le_of_not_lt inside)
    rw [endClass, missing]
    exact ⟨_, rfl⟩

/-! ### The finished class -/

private theorem current_step_of_ne (a : Assembler) {call : Call} (other : call ≠ .endClass 0) :
    (a.step call).current = a.current := by
  cases call with
  | beginClass name access supers => rfl
  | beginMethod c access name descriptor =>
    rw [step, beginMethod]
    dsimp only
    split
    · rfl
    · rfl
  | emit m e =>
    cases found : a.methods[m]? with
    | none => rw [step, emit_of_getElem?_eq_none found]
    | some b => rw [step, emit_of_getElem?_eq_some found, current, current]
  | endMethod m => rw [step, current, finished_endMethod, current]
  | endClass c =>
    have later : c ≠ 0 := by
      rintro rfl
      exact other rfl
    rw [step, current]
    cases result : (a.endClass c).1 with
    | error f => rw [finished_endClass_of_error result, current]
    | ok decl => rw [finished_endClass_of_ok result, if_neg later, current]
  | refer s => rfl

private theorem exists_split_append_singleton {call last : Call} {P : List Call → Prop} :
    (∃ before after, calls ++ [last] = before ++ call :: after ∧ P before) ↔
      (∃ before after, calls = before ++ call :: after ∧ P before) ∨ last = call ∧ P calls := by
  constructor
  · rintro ⟨before, after, split, holds⟩
    rcases List.eq_nil_or_concat after with rfl | ⟨after, final, rfl⟩
    · obtain ⟨rfl, same⟩ := List.append_inj' split rfl
      exact Or.inr ⟨List.head_eq_of_cons_eq same, holds⟩
    · rw [List.concat_eq_append, ← List.cons_append, ← List.append_assoc] at split
      exact Or.inl ⟨before, after, (List.append_inj' split rfl).1, holds⟩
  · rintro (⟨before, after, rfl, holds⟩ | ⟨rfl, holds⟩)
    · exact ⟨before, after ++ [last], by simp, holds⟩
    · exact ⟨calls, [], rfl, holds⟩

private theorem current_run_eq_some_iff (o : Options) (legal : Along Call.Legal calls)
    {decl : ClassDecl} : (run { options := o } calls).current = some decl ↔
      ∃ before after, calls = before ++ .endClass 0 :: after ∧
        ((run { options := o } before).endClass 0).1 = .ok decl := by
  induction calls using List.reverseRecOn with
  | nil =>
    constructor
    · intro finished
      cases finished
    · rintro ⟨before, after, split, -⟩
      simp at split
  | append_singleton calls call ih =>
    obtain ⟨early, -⟩ := along_append_singleton.mp legal
    have before := ih early
    rw [exists_split_append_singleton, ← before, run_append_singleton]
    by_cases first : call = .endClass 0
    · subst first
      rw [step, current]
      cases result : ((run { options := o } calls).endClass 0).1 with
      | error f =>
        rw [finished_endClass_of_error result, ← current]
        simp
      | ok given =>
        -- The first class ends once, so nothing was finished before.
        have nothing : ¬ (run { options := o } calls).current = some decl := by
          intro finished
          obtain ⟨front, back, rfl, -⟩ := before.mp finished
          obtain ⟨f, failed⟩ := exists_error_of_endClass_mem (c := 0) o early (by simp)
          rw [result] at failed
          cases failed
        rw [finished_endClass_of_ok result, if_pos rfl]
        simp [nothing]
    · rw [current_step_of_ne _ first]
      simp [first]

end

/-- After any history of calls on builders that were begun, the finished class is the one that the
first class's end gave when it succeeded, and there is none before that; the end of another class
fails; an end fails when the same builder's end was called before; of the methods begun on a class
only the one that is open can be ended now or later; and none can when the class's end was called,
also none that is begun on it later. -/
theorem builders_end_once (o : Options) {calls : List Call} (legal : Along Call.Legal calls) :
    let a := run { options := o } calls
    (∀ decl, a.current = some decl ↔ ∃ before after, calls = before ++ .endClass 0 :: after ∧
        ((run { options := o } before).endClass 0).1 = .ok decl) ∧
      (∀ c, c ≠ 0 → ∃ f, (a.endClass c).1 = .error f) ∧
      (∀ c, .endClass c ∈ calls → ∃ f, (a.endClass c).1 = .error f) ∧
      (∀ m, .endMethod m ∈ calls → ∃ f, (a.endMethod m).1 = .error f) ∧
      (∀ c m later, m ∈ (begunOn c calls).map Prod.snd → ((a.run later).endMethod m).1 = .ok () →
        (a.classes[c]?).bind ClassBuilder.openMethod = some m) ∧
      ∀ c m later, .endClass c ∈ calls → m ∈ (begunOn c (calls ++ later)).map Prod.snd →
        ∃ f, ((a.run later).endMethod m).1 = .error f := by
  intro a
  refine ⟨?_, ?_, ?_, ?_, ?_, ?_⟩
  · intro decl
    exact current_run_eq_some_iff o legal
  · intro c other
    exact exists_error_of_ne_zero o calls other
  · intro c ended
    exact exists_error_of_endClass_mem o legal ended
  · intro m ended
    exact (settled_of_endMethod_mem o legal ended).exists_error
  · intro c m later begun ok
    obtain ⟨b, found, owner⟩ := exists_method_of_on (o := o) begun
    have live : b.stage = .live := by
      by_contra dead
      obtain ⟨f, failed⟩ := (Settled.run ⟨b, found, dead⟩ later).exists_error
      rw [ok] at failed
      cases failed
    obtain ⟨B, here, -, inside⟩ := liveIsOpen_run o legal m b found live
    rw [← owner, here]
    exact inside
  · intro c m later ended begun
    have frozen := (frozen_of_endClass_mem o legal ended).run later
    obtain ⟨b, found, owner⟩ := exists_method_of_on (o := o) begun
    rw [run_append] at found
    exact Settled.exists_error ⟨b, found, frozen.settled m b found owner⟩

/-- Two classes with a method each, of which the first is ended, and a method begun on it later. -/
def interleavedHistory : List Call :=
  [.beginClass "A" defaultClassAccess [], .beginMethod 0 defaultMethodAccess "f" "()V",
    .beginClass "B" defaultClassAccess [], .beginMethod 1 defaultMethodAccess "g" "()V",
    .emit 0 (.bare .vreturn), .endMethod 0, .endClass 0,
    .beginMethod 0 defaultMethodAccess "h" "()V"]

/-- The method that is ended was the open one. The first class is the finished one; the second
cannot be ended, nor can the late method. -/
theorem builders_end_once_of_interleaved :
    Along Call.Legal interleavedHistory ∧
      (((run {} (interleavedHistory.take 5)).endMethod 0).1 = .ok () ∧
        ((run {} (interleavedHistory.take 5)).classes[0]?).bind ClassBuilder.openMethod = some 0) ∧
      (∃ decl, ((run {} (interleavedHistory.take 6)).endClass 0).1 = .ok decl ∧
        (run {} interleavedHistory).current = some decl) ∧
      (∃ f, ((run {} interleavedHistory).endClass 1).1 = .error f) ∧
      (∃ f, ((run {} interleavedHistory).endClass 0).1 = .error f) ∧
      (∃ f, ((run {} interleavedHistory).endMethod 0).1 = .error f) ∧
      (∃ f, ((run {} interleavedHistory).endMethod 2).1 = .error f) := by
  have legal : Along Call.Legal interleavedHistory := by decide
  have early : Along Call.Legal (interleavedHistory.take 5) := by decide
  obtain ⟨finished, others, classes, methods, -, late⟩ := builders_end_once {} legal
  obtain ⟨-, -, -, -, inside, -⟩ := builders_end_once {} early
  have taken : ((run {} (interleavedHistory.take 5)).endMethod 0).1 = .ok () := rfl
  have ended : ∃ decl, ((run {} (interleavedHistory.take 6)).endClass 0).1 = .ok decl := ⟨_, rfl⟩
  obtain ⟨decl, ok⟩ := ended
  refine ⟨legal, ⟨taken, inside 0 0 [] (by decide) taken⟩, ⟨decl, ok, ?_⟩, others 1 (by decide),
    classes 0 (by decide), methods 0 (by decide), late 0 2 [] (by decide) (by decide)⟩
  exact (finished decl).mpr ⟨interleavedHistory.take 6, interleavedHistory.drop 7, rfl, ok⟩

end Assembler

end JvmAssembler
