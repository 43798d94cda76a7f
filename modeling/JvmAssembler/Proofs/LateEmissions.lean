import JvmAssembler.Proofs.BuilderHistory

/-!
# Emissions to methods that were ended

A method that was ended takes no more instructions. What is emitted to it all the same makes the end
of its class fail, unless the emission is turned down for its argument alone: this is noted in the
method, where nothing looks any more.
-/

set_option autoImplicit false
set_option relaxedAutoImplicit false

namespace JvmAssembler

/-- An emission that is turned down before the method is asked whether it was ended: a missing
instruction and a number beyond 32 bits. -/
def Emission.Unheard : Emission → Prop
  | .instruction i => i = none
  | .loadInteger value => value < -2147483648 ∨ 2147483647 < value
  | _ => False

namespace MethodBuilder

def withProblems (p : Trail Cause) (b : MethodBuilder) : MethodBuilder := { b with problems := p }

section

variable {b : MethodBuilder}

private theorem classProblem_add (closed : b.stage = .closed) (i : Instruction) :
    ∃ f, (b.add i).classProblem = some f := by
  rw [add, closed]
  exact ⟨_, rfl⟩

private theorem classProblem_withTexts (closed : b.stage = .closed) (what : Text)
    (texts : List Text) {go : Emitted} (heard : ∃ f, go.classProblem = some f) :
    ∃ f, (b.withTexts what texts go).classProblem = some f := by
  rw [withTexts]
  split
  · rw [rejectText, if_pos closed]
    exact ⟨_, rfl⟩
  · exact heard

private theorem classProblem_emit (closed : b.stage = .closed) {e : Emission} (heard : ¬ e.Unheard)
    (emitter : e.isParameter = false) : ∃ f, (b.emit e).classProblem = some f := by
  cases e with
  | instruction i =>
    cases i with
    | none => exact absurd rfl heard
    | some i => exact classProblem_add closed i
  | parameter name => cases emitter
  | localVariable op name => exact classProblem_add ((b.stage_slotFor name).trans closed) _
  | loadString text => exact classProblem_withTexts closed _ _ (classProblem_add closed _)
  | loadInteger value =>
    change ¬ (value < -2147483648 ∨ 2147483647 < value) at heard
    rw [emit, if_neg heard]
    exact classProblem_add closed _
  | field op owner name descriptor =>
    exact classProblem_withTexts closed _ _ (classProblem_add closed _)
  | method op owner name descriptor =>
    exact classProblem_withTexts closed _ _ (classProblem_add closed _)
  | bare op => exact classProblem_add closed _

private theorem emit_of_unheard (b : MethodBuilder) {e : Emission} (unheard : e.Unheard) :
    ∃ p, b.emit e = { builder := b.withProblems p } := by
  cases e with
  | instruction i =>
    cases unheard
    exact ⟨_, rfl⟩
  | loadInteger value =>
    change value < -2147483648 ∨ 2147483647 < value at unheard
    rw [emit, if_pos unheard]
    exact ⟨_, rfl⟩
  | _ => cases unheard

private def Emitted.withProblems (p : Trail Cause) (r : Emitted) : Emitted :=
  { r with builder := r.builder.withProblems p }

private theorem add_withProblems (b : MethodBuilder) (p : Trail Cause) (i : Instruction) :
    (b.withProblems p).add i = (b.add i).withProblems p := by
  obtain ⟨_, _, _, _, stage, _, _, _⟩ := b
  cases stage with
  | detached => rfl
  | live => rfl
  | closed => rfl

private theorem slotFor_withProblems (b : MethodBuilder) (p : Trail Cause) (name : Text) :
    ∃ p', (b.withProblems p).slotFor name =
      ((b.slotFor name).1.withProblems p', (b.slotFor name).2) := by
  have same : (b.withProblems p).slot? name = b.slot? name := rfl
  simp only [slotFor, same]
  split
  · exact ⟨p, rfl⟩
  · by_cases large : maxSlot < b.locals.length
    · rw [if_pos large]
      exact ⟨_, if_pos large⟩
    · rw [if_neg large]
      exact ⟨p, if_neg large⟩

private theorem withTexts_withProblems (b : MethodBuilder) (p : Trail Cause) (what : Text)
    (texts : List Text) {go go' : Emitted} (same : go' = go.withProblems p) :
    ∃ p', (b.withProblems p).withTexts what texts go' =
      (b.withTexts what texts go).withProblems p' := by
  simp only [withTexts]
  split
  · rename_i c _
    by_cases closed : b.stage = .closed
    · refine ⟨p, ?_⟩
      rw [rejectText, rejectText, if_pos closed]
      exact if_pos closed
    · refine ⟨p.push c, ?_⟩
      rw [rejectText, rejectText, if_neg closed]
      exact if_neg closed
  · exact ⟨p, same⟩

private theorem addConstant_withProblems (b : MethodBuilder) (p : Trail Cause) (op : Opcode)
    (s : Symbol) : (b.withProblems p).addConstant op s = (b.addConstant op s).withProblems p := by
  rw [addConstant, addConstant, add_withProblems]
  rfl

private theorem emit_withProblems (b : MethodBuilder) (p : Trail Cause) (e : Emission) :
    ∃ p', (b.withProblems p).emit e = (b.emit e).withProblems p' := by
  cases e with
  | instruction i =>
    cases i with
    | none => exact ⟨_, rfl⟩
    | some i => exact ⟨p, add_withProblems b p i⟩
  | parameter name =>
    have same : (b.withProblems p).slot? name = b.slot? name := rfl
    simp only [emit, same]
    split_ifs
    · exact ⟨_, rfl⟩
    · obtain ⟨p', slot⟩ := slotFor_withProblems b p name
      refine ⟨p', ?_⟩
      rw [slot]
      rfl
  | localVariable op name =>
    obtain ⟨p', slot⟩ := slotFor_withProblems b p name
    refine ⟨p', ?_⟩
    simp only [emit, slot]
    exact add_withProblems _ p' _
  | loadString text => exact withTexts_withProblems b p _ _ (addConstant_withProblems b p _ _)
  | loadInteger value =>
    simp only [emit]
    split_ifs
    · exact ⟨_, rfl⟩
    · refine ⟨p, ?_⟩
      rw [add_withProblems]
      rfl
  | field op owner name descriptor =>
    exact withTexts_withProblems b p _ _ (addConstant_withProblems b p _ _)
  | method op owner name descriptor =>
    exact withTexts_withProblems b p _ _ (addConstant_withProblems b p _ _)
  | bare op => exact ⟨p, add_withProblems b p _⟩

end

end MethodBuilder

namespace Assembler

/-! ### Classes that cannot be ended any more -/

def Spoiled (a : Assembler) (c : ClassId) : Prop :=
  ∃ B, a.classes[c]? = some B ∧ (B.ended = true ∨ B.problems.toList ≠ [])

section

variable {a : Assembler} {c : ClassId}

theorem Spoiled.endClass (spoiled : a.Spoiled c) :
    ∃ f, (a.endClass c).1 = .error f ∧ f.kind = .precondition := by
  obtain ⟨B, found, reason⟩ := spoiled
  simp only [Assembler.endClass, found]
  by_cases ended : B.ended = true
  · rw [if_pos ended]
    exact ⟨_, rfl, rfl⟩
  · rw [if_neg ended]
    have problems := reason.resolve_left ended
    split
    · rename_i clean
      exact absurd (ClassBuilder.of_allProblems_eq_nil clean).1 problems
    · exact ⟨_, rfl, rfl⟩

/-- No call makes up for a problem: of the ways in which a call leaves a class without one, each
starts from a class without one. -/
theorem Spoiled.step (spoiled : a.Spoiled c) (call : Call) : (a.step call).Spoiled c := by
  obtain ⟨B, found, reason⟩ := spoiled
  obtain ⟨B', after, -⟩ := exists_class_step found call
  refine ⟨B', after, ?_⟩
  by_contra fine
  obtain ⟨running, clean⟩ := not_or.mp fine
  have sound : ∀ B₀, a.classes[c]? = some B₀ → B₀.ended = B'.ended → B₀.problems = B'.problems →
      False := by
    intro B₀ found₀ ended problems
    rw [found] at found₀
    cases found₀
    rw [ended, problems] at reason
    exact fine reason
  cases classStep after (by simpa using running) (not_not.mp clean) with
  | new name access supers begins index =>
    rw [index, Array.getElem?_eq_none (Nat.le_refl _)] at found
    cases found
  | kept before => exact sound B' before rfl rfl
  | opened B₀ before idle access name descriptor begins methods result =>
    subst result
    exact sound B₀ before rfl rfl
  | took B₀ before m b limits ends here live owner empty ok result =>
    subst result
    exact sound B₀ before rfl rfl

private theorem Spoiled.run (spoiled : a.Spoiled c) (calls : List Call) :
    (a.run calls).Spoiled c := by
  induction calls generalizing a with
  | nil => exact spoiled
  | cons call calls ih => exact ih (spoiled.step call)

end

/-! ### Methods that take no more instructions -/

/-- A method that was begun and takes no instructions, or none any more. -/
def Settled (a : Assembler) (m : MethodId) : Prop :=
  ∃ b, a.methods[m]? = some b ∧ b.stage ≠ .live

section

variable {a : Assembler} {m : MethodId}

theorem Settled.step (settled : a.Settled m) (call : Call) : (a.step call).Settled m := by
  obtain ⟨b, found, stage⟩ := settled
  obtain ⟨b', after, -, live⟩ := exists_method_step found call
  exact ⟨b', after, fun alive => stage (live alive)⟩

private theorem settled_endMethod {b : MethodBuilder} (found : a.methods[m]? = some b) :
    (a.step (.endMethod m)).Settled m := by
  by_cases live : b.stage = .live
  · obtain ⟨b', found', closed⟩ := closedMethod_endMethod found live
    refine ⟨b', found', ?_⟩
    rw [closed]
    decide
  · exact Settled.step ⟨b, found, live⟩ _

theorem settled_of_endMethod_mem (o : Options) {calls : List Call}
    (legal : Along Call.Legal calls) (ended : .endMethod m ∈ calls) :
    (Assembler.run { options := o } calls).Settled m := by
  induction calls using List.reverseRecOn with
  | nil => cases ended
  | append_singleton calls call ih =>
    obtain ⟨before, last⟩ := along_append_singleton.mp legal
    rw [run_append_singleton]
    by_cases early : .endMethod m ∈ calls
    · exact (ih before early).step call
    · have here : call = .endMethod m := by
        rcases List.mem_append.mp ended with member | member
        · exact absurd member early
        · exact (List.mem_singleton.mp member).symm
      subst here
      have inside : m < (Assembler.run { options := o } calls).methods.size := by
        rw [(recorded_run o before).methods_size]
        exact last
      exact settled_endMethod (Array.getElem?_eq_getElem inside)

end

/-! ### Nothing looks at the problems of a settled method -/

def setProblems (a : Assembler) (m : MethodId) (p : Trail Cause) : Assembler :=
  { a with methods := a.methods.modify m (MethodBuilder.withProblems p) }

section

variable {a : Assembler} {m : MethodId} {p : Trail Cause}

private theorem modify_comm {α : Type} (xs : Array α) {j k : Nat} {f g : α → α}
    (apart : j = k → ∀ x, f (g x) = g (f x)) :
    (xs.modify j f).modify k g = (xs.modify k g).modify j f := by
  apply Array.ext_getElem?
  intro i
  simp only [Array.getElem?_modify]
  split_ifs with second first
  · subst first
    rw [Option.map_map, Option.map_map]
    congr 1
    funext x
    exact (apart second.symm x).symm
  · rfl
  · rfl
  · rfl

private theorem openMethodText?_setProblems (B : ClassBuilder) :
    (a.setProblems m p).openMethodText? B = a.openMethodText? B := by
  have same : ∀ k : MethodId, ((a.setProblems m p).methods[k]?).map MethodBuilder.text =
      (a.methods[k]?).map MethodBuilder.text := by
    intro k
    rw [setProblems, Array.getElem?_modify]
    split_ifs
    · exact Option.map_map _ _ _
    · rfl
  simp only [openMethodText?, same]

private theorem beginMethod_setProblems (inside : m < a.methods.size) (c : ClassId)
    (access : AccessFlags) (name descriptor : Text) :
    ((a.setProblems m p).beginMethod c access name descriptor).2 =
      (a.beginMethod c access name descriptor).2.setProblems m p := by
  have size : (a.setProblems m p).methods.size = a.methods.size := Array.size_modify
  have push : ∀ b, (a.setProblems m p).methods.push b =
      (a.methods.push b).modify m (MethodBuilder.withProblems p) := by
    intro b
    apply Array.ext_getElem?
    intro k
    simp only [setProblems, Array.getElem?_push, Array.getElem?_modify, Array.size_modify]
    split_ifs with last here
    · exact absurd (here.trans last) (Nat.ne_of_lt inside)
    · rfl
    · rfl
    · rfl
  have problem : ∀ B text, (a.setProblems m p).beginMethodProblem? B text =
      a.beginMethodProblem? B text := by
    intro B text
    rw [beginMethodProblem?, beginMethodProblem?, openMethodText?_setProblems]
  have classes : (a.setProblems m p).classes = a.classes := rfl
  simp only [beginMethod, size, push, problem, classes]
  cases (a.classes[c]?).bind fun B => a.beginMethodProblem? B (name ++ descriptor) with
  | none => rfl
  | some f => rfl

private theorem emit_setProblems (k : MethodId) (e : Emission) :
    ∃ p', (a.setProblems m p).emit k e = (a.emit k e).setProblems m p' := by
  cases found : a.methods[k]? with
  | none =>
    have missing : (a.setProblems m p).methods[k]? = none := by
      rw [Array.getElem?_eq_none_iff] at found ⊢
      exact Nat.le_trans (Nat.le_of_eq Array.size_modify) found
    refine ⟨p, ?_⟩
    rw [emit_of_getElem?_eq_none found, emit_of_getElem?_eq_none missing]
  | some b =>
    by_cases here : m = k
    · subst here
      obtain ⟨p', same⟩ := b.emit_withProblems p e
      have changed : (a.setProblems m p).methods[m]? = some (b.withProblems p) := by
        rw [setProblems, Array.getElem?_modify, if_pos rfl, found]
        rfl
      refine ⟨p', ?_⟩
      rw [emit_of_getElem?_eq_some found, emit_of_getElem?_eq_some changed, same]
      have methods : (a.methods.modify m (MethodBuilder.withProblems p)).modify m
            (fun b => (b.emit e).builder) =
          (a.methods.modify m fun b => (b.emit e).builder).modify m
            (MethodBuilder.withProblems p') := by
        rw [modify_modify, modify_modify]
        exact modify_congr found (congrArg MethodBuilder.Emitted.builder same)
      rw [setProblems, methods]
      rfl
    · have kept : (a.setProblems m p).methods[k]? = some b := by
        rw [setProblems, Array.getElem?_modify, if_neg here, found]
      refine ⟨p, ?_⟩
      rw [emit_of_getElem?_eq_some found, emit_of_getElem?_eq_some kept, setProblems,
        modify_comm a.methods fun same => absurd same here]
      rfl

private theorem endLiveMethod_setProblems {k : MethodId} (other : k ≠ m) (b : MethodBuilder) :
    ((a.setProblems m p).endLiveMethod k b).2 = (a.endLiveMethod k b).2.setProblems m p := by
  have marked : (a.setProblems m p).markClosed k b.owner =
      (a.markClosed k b.owner).setProblems m p := by
    have apart := modify_comm a.methods (f := MethodBuilder.withProblems p)
      (g := fun b => { b with stage := .closed }) (j := m) (k := k)
      (fun same => absurd same.symm other)
    rw [markClosed, setProblems, apart]
    rfl
  have close : ((a.markClosed k b.owner).setProblems m p).closeMethod b =
      (a.markClosed k b.owner).closeMethod b := rfl
  simp only [endLiveMethod, marked, close]
  split
  · rfl
  · split
    · rfl
    · rfl

private theorem Settled.setProblems (settled : a.Settled m) (p : Trail Cause) :
    (a.setProblems m p).Settled m := by
  obtain ⟨b, found, stage⟩ := settled
  refine ⟨b.withProblems p, ?_, stage⟩
  rw [Assembler.setProblems, Array.getElem?_modify, if_pos rfl, found]
  rfl

theorem Settled.endMethod (settled : a.Settled m) : (a.endMethod m).2 = a := by
  obtain ⟨b, found, stage⟩ := settled
  rcases endMethod_cases a m with ⟨-, same⟩ | ⟨b', found', live⟩
  · exact same
  · rw [found] at found'
    cases found'
    exact absurd live stage

private theorem endMethod_setProblems (settled : a.Settled m) (k : MethodId) :
    ((a.setProblems m p).endMethod k).2 = (a.endMethod k).2.setProblems m p := by
  by_cases here : k = m
  · subst here
    rw [settled.endMethod, (settled.setProblems p).endMethod]
  · have same : (a.setProblems m p).methods[k]? = a.methods[k]? := by
      rw [setProblems, Array.getElem?_modify, if_neg (Ne.symm here)]
    simp only [endMethod, same]
    split
    · rfl
    · split
      · rfl
      · rfl
      · exact endLiveMethod_setProblems here _

private theorem finishClass_setProblems (c : ClassId) (B : ClassBuilder) :
    (a.setProblems m p).finishClass c B =
      ((a.finishClass c B).1, (a.finishClass c B).2.setProblems m p) := by
  have refers : ∀ r s, ((a.setProblems m p).refer r).refer s =
      ((a.refer r).refer s).setProblems m p := fun _ _ => rfl
  simp only [finishClass, refers]
  generalize (a.refer (.classRef B.name)).refer (.classRef B.superName) = a'
  generalize ClassDecl.make B.access B.name B.superName (B.methods.toList.map some) = made
  cases made with
  | error f => rfl
  | ok decl =>
    by_cases first : c = 0
    · simp only [if_pos first]
      rfl
    · simp only [if_neg first]
      rfl

private theorem markEnded_setProblems (c : ClassId) (B : ClassBuilder) :
    (a.setProblems m p).markEnded c B = (a.markEnded c B).setProblems m p := by
  rw [markEnded, markEnded]
  cases B.openMethod with
  | none => rfl
  | some k =>
    have apart := modify_comm a.methods (j := m) (k := k) (f := MethodBuilder.withProblems p)
      (g := fun b => { b with stage := .closed }) (fun _ _ => rfl)
    simp only [setProblems, apart]

private theorem endClass_setProblems (c : ClassId) :
    (a.setProblems m p).endClass c = ((a.endClass c).1, (a.endClass c).2.setProblems m p) := by
  cases found : a.classes[c]? with
  | none =>
    have found' : (a.setProblems m p).classes[c]? = none := found
    simp only [endClass, found, found']
  | some B =>
    have found' : (a.setProblems m p).classes[c]? = some B := found
    simp only [endClass, found, found', openMethodText?_setProblems, markEnded_setProblems]
    by_cases ended : B.ended = true
    · simp only [if_pos ended]
    · simp only [if_neg ended]
      split
      · exact finishClass_setProblems c B
      · rfl

private theorem step_setProblems (settled : a.Settled m) (p : Trail Cause) (call : Call) :
    ∃ p', (a.setProblems m p).step call = (a.step call).setProblems m p' := by
  cases call with
  | beginClass name access supers => exact ⟨p, rfl⟩
  | beginMethod c access name descriptor =>
    obtain ⟨b, found, -⟩ := settled
    obtain ⟨inside, -⟩ := Array.getElem?_eq_some_iff.mp found
    exact ⟨p, beginMethod_setProblems inside c access name descriptor⟩
  | emit k e => exact emit_setProblems k e
  | endMethod k => exact ⟨p, endMethod_setProblems settled k⟩
  | endClass c => exact ⟨p, congrArg Prod.snd (endClass_setProblems c)⟩
  | refer s => exact ⟨p, rfl⟩

/-- Other problems in a settled method change nothing but these problems, whatever is called. -/
private theorem run_setProblems (settled : a.Settled m) (p : Trail Cause) (calls : List Call) :
    ∃ p', (a.setProblems m p).run calls = (a.run calls).setProblems m p' := by
  induction calls generalizing a p with
  | nil => exact ⟨p, rfl⟩
  | cons call calls ih =>
    obtain ⟨p₁, first⟩ := step_setProblems settled p call
    obtain ⟨p', rest⟩ := ih (settled.step call) p₁
    refine ⟨p', ?_⟩
    change ((a.setProblems m p).step call).run calls = _
    rw [first]
    exact rest

end

section

variable {o : Options} {calls : List Call} {m : MethodId} {e : Emission}

/-- Of a class that is not spoiled, the methods that take no more instructions are those it holds.
They are closed, so the emission is a problem of the class. -/
private theorem spoiled_of_late_emission (legal : Along Call.Legal calls)
    (ended : .endMethod m ∈ calls)
    {c : ClassId} {g : BegunMethod} (begun : (g, m) ∈ begunOn c calls) (heard : ¬ e.Unheard)
    (emitter : e.isParameter = false) :
    ((run { options := o } calls).step (.emit m e)).Spoiled c := by
  have recorded := recorded_run o legal
  have settled := settled_of_endMethod_mem o legal ended
  generalize run { options := o } calls = a at recorded settled
  obtain ⟨b, found, stage⟩ := settled
  have owner := (recorded.owner_of_mem_begunOn begun found).2
  obtain ⟨listed, same⟩ := mem_begunOn.mp begun
  have inside : c < a.classes.size := by
    rw [recorded.classes_size, ← same]
    exact owner_lt_of_legal legal (List.mem_of_getElem? listed)
  have here : a.classes[c]? = some a.classes[c] := Array.getElem?_eq_getElem inside
  by_cases spoiled : a.Spoiled c
  · exact spoiled.step _
  have fine : ¬ (a.classes[c].ended = true ∨ a.classes[c].problems.toList ≠ []) :=
    fun reason => spoiled ⟨_, here, reason⟩
  obtain ⟨running, clean⟩ := not_or.mp fine
  have tracked := recorded.clean c _ here (by simpa using running) (not_not.mp clean)
  obtain ⟨done, opened, split, -, allClosed, -, allOpen⟩ := tracked.methods
  have closed : b.stage = .closed := by
    rw [split] at begun
    rcases List.mem_append.mp begun with early | last
    · obtain ⟨b', found', closed⟩ := allClosed _ early
      rw [found] at found'
      cases found'
      exact closed
    · obtain ⟨b', found', live, -⟩ := (allOpen _ (Option.mem_toList.mp last)).live
      rw [found] at found'
      cases found'
      exact absurd live stage
  obtain ⟨f, problem⟩ := MethodBuilder.classProblem_emit closed heard emitter
  refine ⟨a.classes[c].fail f, ?_, Or.inr (by simp [ClassBuilder.fail])⟩
  rw [step, emit_of_getElem?_eq_some found, problem, owner]
  change (a.classes.modify c (·.fail f))[c]? = _
  rw [Array.getElem?_modify, if_pos rfl, here]
  rfl

private theorem emit_eq_setProblems {a : Assembler} (settled : a.Settled m) (unheard : e.Unheard) :
    ∃ p, a.emit m e = a.setProblems m p := by
  obtain ⟨b, found, -⟩ := settled
  obtain ⟨p, same⟩ := b.emit_of_unheard unheard
  refine ⟨p, ?_⟩
  have methods : (a.methods.modify m fun b => (b.emit e).builder) =
      a.methods.modify m (MethodBuilder.withProblems p) :=
    modify_congr found (congrArg MethodBuilder.Emitted.builder same)
  rw [emit_of_getElem?_eq_some found, same, methods]
  rfl

end

/-- What is emitted to a method after its end, by anything but a declaration of a parameter, makes
the end of its class fail for a precondition, whatever is called before and after it. The exceptions
are a missing instruction and a number beyond 32 bits: ending the class then gives what it gives
without the emission. -/
theorem endClass_of_late_emission (o : Options) {before after : List Call} {m : MethodId}
    {e : Emission} (legal : Along Call.Legal (before ++ .emit m e :: after))
    (ended : .endMethod m ∈ before) {c : ClassId} {g : BegunMethod}
    (begun : (g, m) ∈ begunOn c before) (emitter : e.isParameter = false) :
    (¬ e.Unheard → ∃ f,
        ((run { options := o } (before ++ .emit m e :: after)).endClass c).1 = .error f ∧
          f.kind = .precondition) ∧
      (e.Unheard → ((run { options := o } (before ++ .emit m e :: after)).endClass c).1 =
        ((run { options := o } (before ++ after)).endClass c).1) := by
  have early := legal.of_append
  rw [run_append, run_append]
  constructor
  · intro heard
    exact ((spoiled_of_late_emission early ended begun heard emitter).run after).endClass
  · intro unheard
    have settled := settled_of_endMethod_mem o early ended
    obtain ⟨p, emitted⟩ := emit_eq_setProblems settled unheard
    obtain ⟨p', ran⟩ := run_setProblems settled p after
    change ((((run { options := o } before).emit m e).run after).endClass c).1 = _
    rw [emitted, ran, endClass_setProblems]

def endedMethodHistory : List Call :=
  [.beginClass "A" defaultClassAccess [], .beginMethod 0 defaultMethodAccess "f" "()V",
    .emit 0 (.bare .vreturn), .endMethod 0]

theorem endClass_of_late_text :
    Along Call.Legal (endedMethodHistory ++ [.emit 0 (.loadString [0xFF])]) ∧
      .endMethod 0 ∈ endedMethodHistory ∧
      ∃ f, ((run {} (endedMethodHistory ++ [.emit 0 (.loadString [0xFF])])).endClass 0).1 =
        .error f ∧ f.kind = .precondition := by
  have legal : Along Call.Legal (endedMethodHistory ++ [.emit 0 (.loadString [0xFF])]) := by decide
  have ended : .endMethod 0 ∈ endedMethodHistory := by decide
  have begun : (⟨0, defaultMethodAccess, "f", "()V"⟩, 0) ∈ begunOn 0 endedMethodHistory := by
    decide
  exact ⟨legal, ended, (endClass_of_late_emission {} legal ended begun rfl).1 (fun h => h)⟩

/-- A number beyond 32 bits that is emitted after the end of the method is not reported: the class
can be ended. -/
theorem endClass_ok_after_late_integer :
    Along Call.Legal (endedMethodHistory ++ [.emit 0 (.loadInteger 2147483648)]) ∧
      .endMethod 0 ∈ endedMethodHistory ∧
      ∃ decl, ((run {} (endedMethodHistory ++ [.emit 0 (.loadInteger 2147483648)])).endClass 0).1 =
        .ok decl :=
  ⟨by decide, by decide, _, rfl⟩

end Assembler

end JvmAssembler
