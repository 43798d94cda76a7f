import JvmAssembler.Proofs.BuilderSteps

/-!
# What a call does to builders

Each call changes one builder at most. It leaves what a method was begun as, and a class that is
still without problems after it was begun by it, left alone, or opened or took one method.
-/

set_option autoImplicit false
set_option relaxedAutoImplicit false

namespace JvmAssembler

structure BegunClass.Declares (g : BegunClass) (access : AccessFlags) (name superName : Text) :
    Prop where
  access : access = g.access
  name : name = g.name
  supers : g.supers.length ≤ 1
  superName : superName = g.supers.headD ClassDecl.objectName

/-- A call that is neither about a class nor ends a live method of it. -/
def Call.Spares (a : Assembler) (c : ClassId) : Call → Prop
  | .beginMethod c' _ _ _ => c' ≠ c
  | .endMethod m => ∀ b, a.methods[m]? = some b → b.stage = .live → b.owner ≠ c
  | .endClass c' => c' ≠ c
  | _ => True

namespace Assembler

/-- What a call can do to a method that was begun before: it emits to it, ends it, or ends the class
in which it is open. -/
structure MethodStep (a : Assembler) (call : Call) (m : MethodId)
    (f : MethodBuilder → MethodBuilder) : Prop where
  methods : (a.step call).methods = a.methods.modify m f
  begun : ∀ b, (f b).begun = b.begun
  closed : ∀ b, b.stage = .closed → (f b).stage = .closed
  live : ∀ b, (f b).stage = .live → b.stage = .live
  touched : f = id ∨ (∃ e, call = .emit m e) ∨ call = .endMethod m ∨
    ∃ c B, call = .endClass c ∧ a.classes[c]? = some B ∧ B.openMethod = some m

private theorem modify_id {α : Type} (xs : Array α) (k : Nat) : xs.modify k id = xs := by
  apply Array.ext_getElem?
  intro j
  rw [Array.getElem?_modify]
  split_ifs
  · exact Option.map_id_apply
  · rfl

theorem modify_modify {α : Type} (xs : Array α) (k : Nat) (f g : α → α) :
    (xs.modify k f).modify k g = xs.modify k (g ∘ f) := by
  apply Array.ext_getElem?
  intro j
  rw [Array.getElem?_modify, Array.getElem?_modify, Array.getElem?_modify]
  split_ifs
  · exact Option.map_map g f _
  · rfl

private theorem methodStep_of_methods_eq {a : Assembler} {call : Call}
    (same : (a.step call).methods = a.methods) : MethodStep a call 0 id where
  methods := by rw [same, modify_id]
  begun _ := rfl
  closed _ stage := stage
  live _ stage := stage
  touched := Or.inl rfl

theorem exists_methodStep (a : Assembler) {call : Call} (other : call.begunMethod? = none) :
    ∃ m f, MethodStep a call m f := by
  cases call with
  | beginClass name access supers => exact ⟨0, id, methodStep_of_methods_eq rfl⟩
  | beginMethod c access name descriptor => cases other
  | emit m e =>
    cases found : a.methods[m]? with
    | none =>
      exact ⟨0, id, methodStep_of_methods_eq
        (congrArg Assembler.methods (emit_of_getElem?_eq_none found e))⟩
    | some b =>
      refine ⟨m, fun b => (b.emit e).builder, methods_emit found e, fun b => b.begun_emit e,
        fun b stage => (b.stage_emit e).trans stage,
        fun b stage => (b.stage_emit e).symm.trans stage, Or.inr (Or.inl ⟨e, rfl⟩)⟩
  | endMethod m =>
    rcases endMethod_cases a m with ⟨-, same⟩ | ⟨b, found, live⟩
    · exact ⟨0, id, methodStep_of_methods_eq (congrArg Assembler.methods same)⟩
    · refine ⟨m, fun b => { b with stage := .closed }, ?_, fun _ => rfl, fun _ _ => rfl,
        fun _ stage => (by cases stage), Or.inr (Or.inr (Or.inl rfl))⟩
      rw [step, endMethod_of_live found live]
      exact (endLiveMethod_cases a m b).1
  | endClass c =>
    rcases endClass_cases a c with ⟨-, same⟩ | ⟨B, found, -, marked⟩
    · exact ⟨0, id, methodStep_of_methods_eq (congrArg Assembler.methods same)⟩
    · cases inside : B.openMethod with
      | none =>
        rw [inside] at marked
        exact ⟨0, id, methodStep_of_methods_eq marked⟩
      | some m =>
        rw [inside] at marked
        exact ⟨m, fun b => { b with stage := .closed }, marked, fun _ => rfl, fun _ _ => rfl,
          fun _ stage => (by cases stage), Or.inr (Or.inr (Or.inr ⟨c, B, rfl, found, inside⟩))⟩
  | refer s => exact ⟨0, id, methodStep_of_methods_eq rfl⟩

/-- What a call can do to a class that was begun before: it stays ended, and no method is open in it
that was not, except one that is begun on it. -/
structure ClassUpdate (a : Assembler) (call : Call) (c : ClassId)
    (f : ClassBuilder → ClassBuilder) : Prop where
  classes : (a.step call).classes = a.classes.modify c f
  ended : ∀ B, B.ended = true → (f B).ended = true
  openMethod : ∀ B m, (f B).openMethod = some m → B.openMethod = some m ∨
    m = a.methods.size ∧ ∃ access name descriptor, call = .beginMethod c access name descriptor

private theorem classUpdate_of_classes_eq {a : Assembler} {call : Call}
    (same : (a.step call).classes = a.classes) : ClassUpdate a call 0 id where
  classes := by rw [same, modify_id]
  ended _ past := past
  openMethod _ _ inside := Or.inl inside

theorem exists_classUpdate (a : Assembler) {call : Call} (other : call.begunClass? = none) :
    ∃ c f, ClassUpdate a call c f := by
  cases call with
  | beginClass name access supers => cases other
  | beginMethod c access name descriptor =>
    rcases beginMethod_cases a c access name descriptor with ⟨f, -, classes⟩ | ⟨-, -, classes⟩
    · exact ⟨c, (·.fail f), classes, fun _ past => past, fun B m inside => Or.inl inside⟩
    · refine ⟨c, _, classes, fun _ past => past,
        fun B m inside => Or.inr ⟨?_, access, name, descriptor, rfl⟩⟩
      exact (Option.some.inj inside).symm
  | emit m e =>
    cases found : a.methods[m]? with
    | none =>
      exact ⟨0, id, classUpdate_of_classes_eq
        (congrArg Assembler.classes (emit_of_getElem?_eq_none found e))⟩
    | some b =>
      rcases classes_emit found e with same | ⟨f, classes⟩
      · exact ⟨0, id, classUpdate_of_classes_eq same⟩
      · exact ⟨b.owner, (·.fail f), classes, fun _ past => past, fun B m inside => Or.inl inside⟩
  | endMethod m =>
    rcases endMethod_cases a m with ⟨-, same⟩ | ⟨b, found, live⟩
    · exact ⟨0, id, classUpdate_of_classes_eq (congrArg Assembler.classes same)⟩
    · obtain ⟨-, ⟨f, classes⟩ | ⟨limits, -, -, classes⟩⟩ := endLiveMethod_cases a m b
      · rw [modify_modify, ← endMethod_of_live found live] at classes
        exact ⟨b.owner, _, classes, fun _ past => past, fun B m inside => by cases inside⟩
      · rw [modify_modify, ← endMethod_of_live found live] at classes
        exact ⟨b.owner, _, classes, fun _ past => past, fun B m inside => by cases inside⟩
  | endClass c =>
    rcases endClass_cases a c with ⟨-, same⟩ | ⟨B, found, classes, -⟩
    · exact ⟨0, id, classUpdate_of_classes_eq (congrArg Assembler.classes same)⟩
    · exact ⟨c, _, classes, fun _ _ => rfl, fun B m inside => by cases inside⟩
  | refer s => exact ⟨0, id, classUpdate_of_classes_eq rfl⟩

/-- What a call can have done to a class that is neither ended nor spoiled after it: the class is
new, it was left alone, a method was opened in it, or it took one. -/
inductive ClassStep (a : Assembler) (c : ClassId) (call : Call) (B' : ClassBuilder) : Prop where
  | new (name : Text) (access : AccessFlags) (supers : List Text)
    (begins : call = .beginClass name access supers) (index : c = a.classes.size)
    (declares : BegunClass.Declares ⟨name, access, supers⟩ B'.access B'.name B'.superName)
    (empty : B'.methods.toList = []) (idle : B'.openMethod = none)
  | kept (found : a.classes[c]? = some B') (spares : call.Spares a c)
  | opened (B : ClassBuilder) (found : a.classes[c]? = some B) (idle : B.openMethod = none)
    (access : AccessFlags) (name descriptor : Text)
    (begins : call = .beginMethod c access name descriptor)
    (methods : (a.step call).methods =
      a.methods.push { owner := c, access, name, descriptor, stage := .live })
    (result : B' = { B with openMethod := some a.methods.size })
  | took (B : ClassBuilder) (found : a.classes[c]? = some B) (m : MethodId) (b : MethodBuilder)
    (limits : Limits) (ends : call = .endMethod m) (here : a.methods[m]? = some b)
    (live : b.stage = .live) (owner : b.owner = c) (clean : b.problems.toList = [])
    (ok : (a.endMethod m).1 = .ok ())
    (result : B' = { B with openMethod := none, methods := B.methods.push (b.made limits) })

section

variable {a : Assembler} {call : Call} {c : ClassId} {B' : ClassBuilder}

private theorem problems_fail_ne_nil (B : ClassBuilder) (f : Failure) :
    (B.fail f).problems.toList ≠ [] := by
  simp [ClassBuilder.fail]

private theorem getElem?_of_fail {classes : Array ClassBuilder} {c' : ClassId} {f : Failure}
    (found : (classes.modify c' (·.fail f))[c]? = some B') (clean : B'.problems.toList = []) :
    c' ≠ c ∧ classes[c]? = some B' := by
  rw [Array.getElem?_modify] at found
  split_ifs at found with here
  · obtain ⟨B, -, rfl⟩ := Option.map_eq_some_iff.mp found
    exact absurd clean (problems_fail_ne_nil B f)
  · exact ⟨here, found⟩

private theorem declares_of_begun {name : Text} {supers : List Text}
    (fine : a.beginClassProblem? name supers = none) :
    supers.length ≤ 1 ∧ superOf none supers = supers.headD ClassDecl.objectName := by
  rw [beginClassProblem?] at fine
  split at fine
  · cases fine
  · split_ifs at fine with many
    refine ⟨Nat.le_of_not_lt many, ?_⟩
    match supers with
    | [] => rfl
    | [super] => rfl
    | _ :: _ :: _ => simp at many

/-- Every way in which a call can spoil a class leaves a problem in it, which rules out all but the
four cases. -/
theorem classStep (found : (a.step call).classes[c]? = some B') (running : B'.ended = false)
    (clean : B'.problems.toList = []) : ClassStep a c call B' := by
  cases call with
  | beginClass name access supers =>
    change (a.classes.push _)[c]? = some B' at found
    rw [Array.getElem?_push] at found
    split_ifs at found with index
    · cases found
      have fine : a.beginClassProblem? name supers = none := by simpa [Trail.toList] using clean
      obtain ⟨few, super⟩ := declares_of_begun fine
      refine .new name access supers rfl index ⟨rfl, rfl, few, ?_⟩ rfl rfl
      rw [fine]
      exact super
    · exact .kept found trivial
  | beginMethod c' access name descriptor =>
    rcases beginMethod_cases a c' access name descriptor with
      ⟨f, -, classes⟩ | ⟨idle, methods, classes⟩
    · rw [step, classes] at found
      obtain ⟨other, found⟩ := getElem?_of_fail found clean
      exact .kept found other
    · rw [step, classes, Array.getElem?_modify] at found
      split_ifs at found with here
      · subst here
        obtain ⟨B, before, rfl⟩ := Option.map_eq_some_iff.mp found
        exact .opened B before (idle B before).2 access name descriptor rfl methods rfl
      · exact .kept found here
  | emit m e =>
    refine .kept ?_ trivial
    cases method : a.methods[m]? with
    | none =>
      rw [step, emit_of_getElem?_eq_none method] at found
      exact found
    | some b =>
      rcases classes_emit method e with same | ⟨f, classes⟩
      · rw [step, same] at found
        exact found
      · rw [step, classes] at found
        exact (getElem?_of_fail found clean).2
  | endMethod m =>
    rcases endMethod_cases a m with ⟨dead, same⟩ | ⟨b, here, live⟩
    · rw [step, same] at found
      exact .kept found fun b here stage => absurd stage (dead b here)
    · have ended := endMethod_of_live here live
      have apart (other : b.owner ≠ c) : (Call.endMethod m).Spares a c := by
        intro b' here' _
        rw [here] at here'
        cases here'
        exact other
      rw [step, ended] at found
      obtain ⟨-, ⟨f, classes⟩ | ⟨limits, empty, ok, classes⟩⟩ := endLiveMethod_cases a m b
      · -- The class whose method failed to end is spoiled, so this is another one.
        rw [classes] at found
        obtain ⟨other, found⟩ := getElem?_of_fail found clean
        rw [Array.getElem?_modify, if_neg other] at found
        exact .kept found (apart other)
      · rw [classes, Array.getElem?_modify, Array.getElem?_modify] at found
        split_ifs at found with owner
        · obtain ⟨B₁, closed, rfl⟩ := Option.map_eq_some_iff.mp found
          obtain ⟨B, before, rfl⟩ := Option.map_eq_some_iff.mp closed
          exact .took B before m b limits rfl here live owner empty (by rw [ended, ok]) rfl
        · exact .kept found (apart owner)
  | endClass c' =>
    rcases endClass_cases a c' with ⟨ended, same⟩ | ⟨B, -, classes, -⟩
    · rw [step, same] at found
      refine .kept found ?_
      rintro rfl
      rw [ended B' found] at running
      cases running
    · rw [step, classes, Array.getElem?_modify] at found
      split_ifs at found with here
      · obtain ⟨B, -, rfl⟩ := Option.map_eq_some_iff.mp found
        cases running
      · exact .kept found here
  | refer s => exact .kept found trivial

end

theorem exists_push_of_beginMethod (a : Assembler) (c : ClassId) (access : AccessFlags)
    (name descriptor : Text) : ∃ b, (a.beginMethod c access name descriptor).2.methods =
      a.methods.push b ∧ b.begun = ⟨c, access, name, descriptor⟩ := by
  rcases beginMethod_cases a c access name descriptor with ⟨f, methods, -⟩ | ⟨-, methods, -⟩
  · exact ⟨_, methods, rfl⟩
  · exact ⟨_, methods, rfl⟩

theorem map_begun_step (a : Assembler) (call : Call) :
    (a.step call).methods.toList.map MethodBuilder.begun =
      a.methods.toList.map MethodBuilder.begun ++ call.begunMethod?.toList := by
  cases begun : call.begunMethod? with
  | none =>
    obtain ⟨m, f, change⟩ := exists_methodStep a begun
    rw [change.methods, Option.toList_none, List.append_nil, Array.toList_modify]
    apply List.ext_getElem?
    intro k
    rw [List.getElem?_map, List.getElem?_map, List.getElem?_modify]
    cases a.methods.toList[k]? with
    | none => rfl
    | some b =>
      refine congrArg some ?_
      split_ifs
      · exact change.begun b
      · rfl
  | some g =>
    cases call with
    | beginMethod c access name descriptor =>
      obtain ⟨b, pushed, same⟩ := exists_push_of_beginMethod a c access name descriptor
      cases begun
      rw [step, pushed, Array.toList_push, List.map_append, ← same]
      rfl
    | _ => cases begun

theorem map_begun_run (o : Options) (calls : List Call) :
    (run { options := o } calls).methods.toList.map MethodBuilder.begun = methodsBegun calls := by
  induction calls using List.reverseRecOn with
  | nil => rfl
  | append_singleton calls call ih =>
    rw [run_append_singleton, map_begun_step, ih, methodsBegun_append_singleton]

end Assembler

end JvmAssembler
