import Mathlib.Data.List.Forall2
import JvmAssembler.Proofs.CallEffects
import JvmAssembler.Proofs.EmissionRecord

/-!
# What was emitted is what a class holds

A class that can be ended holds the methods that were begun on it, in order, each with one
instruction for everything that was emitted to it before it was ended. Nothing that was rejected on
the way, no method that overlaps another or was left open, and none that failed to end gets past the
end of the class.
-/

set_option autoImplicit false
set_option relaxedAutoImplicit false

namespace JvmAssembler

/-- A method holds what the history says: what it was begun as, and one instruction for each
emission before its end, all of which were accepted. It was ended without failure. -/
structure Method.Follows (o : Options) (calls : List Call) (item : BegunMethod × MethodId)
    (m : Method) : Prop where
  access : m.access = item.1.access
  name : m.name = item.1.name
  descriptor : m.descriptor = item.1.descriptor
  instructions : m.instructions.map some = Emission.instructions (emissionsOf item.2 calls)
  accepted : Along Emission.Accepted (emissionsOf item.2 calls)
  ended : .endMethod item.2 ∈ calls
  end_ok :
    ((Assembler.run { options := o } (beforeEnd item.2 calls)).endMethod item.2).1 = .ok ()

private theorem Method.Follows.append {o : Options} {calls : List Call}
    {item : BegunMethod × MethodId}
    {m : Method} (follows : m.Follows o calls item) (later : List Call) :
    m.Follows o (calls ++ later) item where
  access := follows.access
  name := follows.name
  descriptor := follows.descriptor
  instructions := by
    rw [emissionsOf_append_of_mem follows.ended]
    exact follows.instructions
  accepted := by
    rw [emissionsOf_append_of_mem follows.ended]
    exact follows.accepted
  ended := List.mem_append_left later follows.ended
  end_ok := by
    rw [beforeEnd_append_of_mem follows.ended]
    exact follows.end_ok

namespace Assembler

/-- A method that is open holds what was emitted to it so far, if it has no problems. -/
structure OpenMethod (calls : List Call) (a : Assembler) (m : MethodId) : Prop where
  unended : .endMethod m ∉ calls
  live : ∃ b, a.methods[m]? = some b ∧ b.stage = .live ∧
    (b.problems.toList = [] → b.Tracks (emissionsOf m calls))

def ClosedMethod (a : Assembler) (m : MethodId) : Prop :=
  ∃ b, a.methods[m]? = some b ∧ b.stage = .closed

/-- The methods begun on a class are those it holds, in order, and the one that is open. -/
structure Tracked (o : Options) (calls : List Call) (a : Assembler) (c : ClassId)
    (B : ClassBuilder) : Prop where
  declared : ∃ g, (classesBegun calls)[c]? = some g ∧ g.Declares B.access B.name B.superName
  sequential : Along (Call.Sequential c) calls
  methods : ∃ (done : List (BegunMethod × MethodId)) (opened : Option (BegunMethod × MethodId)),
    begunOn c calls = done ++ opened.toList ∧
    List.Forall₂ (fun item m => m.Follows o calls item) done B.methods.toList ∧
    (∀ item ∈ done, a.ClosedMethod item.2) ∧
    opened.map Prod.snd = B.openMethod ∧ ∀ item ∈ opened, OpenMethod calls a item.2

/-- The builders of an assembler are those of the history, and classes that are neither ended nor
spoiled track it. -/
structure Recorded (o : Options) (calls : List Call) (a : Assembler) : Prop where
  classes_size : a.classes.size = (classesBegun calls).length
  methods : a.methods.toList.map MethodBuilder.begun = methodsBegun calls
  opened : ∀ (c : ClassId) (B : ClassBuilder) (m : MethodId), a.classes[c]? = some B →
    B.openMethod = some m → ∃ g, (g, m) ∈ begunOn c calls
  clean : ∀ (c : ClassId) (B : ClassBuilder), a.classes[c]? = some B → B.ended = false →
    B.problems.toList = [] → Tracked o calls a c B

private theorem recorded_initial (o : Options) : Recorded o [] { options := o } where
  classes_size := rfl
  methods := rfl
  opened c B m found := by cases found
  clean c B found := by cases found

section

variable {o : Options} {calls : List Call} {call : Call} {a : Assembler} {c : ClassId}
  {m : MethodId} {B : ClassBuilder} {b : MethodBuilder}

theorem getElem?_push_of_some {α : Type} {xs : Array α} {k : Nat} {x : α}
    (found : xs[k]? = some x) (y : α) : (xs.push y)[k]? = some x := by
  obtain ⟨inside, -⟩ := Array.getElem?_eq_some_iff.mp found
  rw [Array.getElem?_push, if_neg (Nat.ne_of_lt inside)]
  exact found

theorem Recorded.methods_size (recorded : Recorded o calls a) :
    a.methods.size = (methodsBegun calls).length := by
  rw [← recorded.methods, List.length_map, Array.length_toList]

theorem Recorded.getElem?_methodsBegun (recorded : Recorded o calls a)
    (found : a.methods[m]? = some b) : (methodsBegun calls)[m]? = some b.begun := by
  rw [← recorded.methods, List.getElem?_map, Array.getElem?_toList, found]
  rfl

theorem exists_method_step (found : a.methods[m]? = some b) (call : Call) :
    ∃ b', (a.step call).methods[m]? = some b' ∧
      (b.stage = .closed → b'.stage = .closed) ∧ (b'.stage = .live → b.stage = .live) := by
  cases begun : call.begunMethod? with
  | none =>
    obtain ⟨k, f, change⟩ := exists_methodStep a begun
    rw [change.methods, Array.getElem?_modify, found]
    split_ifs
    · exact ⟨f b, rfl, change.closed b, change.live b⟩
    · exact ⟨b, rfl, id, id⟩
  | some g =>
    cases call with
    | beginMethod c access name descriptor =>
      obtain ⟨b', pushed, -⟩ := exists_push_of_beginMethod a c access name descriptor
      rw [step, pushed]
      exact ⟨b, getElem?_push_of_some found b', id, id⟩
    | _ => cases begun

theorem exists_class_step (found : a.classes[c]? = some B) (call : Call) :
    ∃ B', (a.step call).classes[c]? = some B' ∧ (B.ended = true → B'.ended = true) := by
  cases begun : call.begunClass? with
  | none =>
    obtain ⟨k, f, update⟩ := exists_classUpdate a begun
    rw [update.classes, Array.getElem?_modify, found]
    split_ifs
    · exact ⟨f B, rfl, update.ended B⟩
    · exact ⟨B, rfl, id⟩
  | some g =>
    cases call with
    | beginClass name access supers => exact ⟨B, getElem?_push_of_some found _, id⟩
    | _ => cases begun

private theorem ClosedMethod.step (closed : a.ClosedMethod m) (call : Call) :
    (a.step call).ClosedMethod m := by
  obtain ⟨b, found, stage⟩ := closed
  obtain ⟨b', after, kept, -⟩ := exists_method_step found call
  exact ⟨b', after, kept stage⟩

private theorem getElem?_methods_step (found : a.methods[m]? = some b)
    (silent : call.emission? m = none) (unended : call ≠ .endMethod m)
    (running : ∀ c B, call = .endClass c → a.classes[c]? = some B → B.openMethod ≠ some m) :
    (a.step call).methods[m]? = some b := by
  cases begun : call.begunMethod? with
  | none =>
    obtain ⟨k, f, change⟩ := exists_methodStep a begun
    rw [change.methods, Array.getElem?_modify]
    split_ifs with here
    · subst here
      rcases change.touched with same | ⟨e, rfl⟩ | ends | ⟨c, B, ends, class_, inside⟩
      · rw [found, same]
        rfl
      · simp [Call.emission?] at silent
      · exact absurd ends unended
      · exact absurd inside (running c B ends class_)
    · exact found
  | some g =>
    cases call with
    | beginMethod c access name descriptor =>
      obtain ⟨b', pushed, -⟩ := exists_push_of_beginMethod a c access name descriptor
      rw [Assembler.step, pushed]
      exact getElem?_push_of_some found b'
    | _ => cases begun

private theorem OpenMethod.step (inside : OpenMethod calls a m) (unended : call ≠ .endMethod m)
    (running : ∀ c B, call = .endClass c → a.classes[c]? = some B → B.openMethod ≠ some m) :
    OpenMethod (calls ++ [call]) (a.step call) m := by
  obtain ⟨never, b, found, live, tracks⟩ := inside
  refine ⟨by simp [never, Ne.symm unended], ?_⟩
  rw [emissionsOf_append_of_notMem never]
  cases emitted : call.emission? m with
  | none =>
    refine ⟨b, getElem?_methods_step found emitted unended running, live, ?_⟩
    rw [Option.toList_none, List.append_nil]
    exact tracks
  | some e =>
    cases call with
    | emit m' e' =>
      rw [Call.emission?] at emitted
      split_ifs at emitted with here
      subst here
      cases emitted
      refine ⟨(b.emit e).builder, ?_, (b.stage_emit e).trans live, fun clean => ?_⟩
      · rw [Assembler.step, methods_emit found, Array.getElem?_modify, if_pos rfl, found]
        rfl
      · exact MethodBuilder.Tracks.emit live tracks clean
    | _ => cases emitted

private theorem declared_append {access : AccessFlags} {name superName : Text}
    (declared : ∃ g, (classesBegun calls)[c]? = some g ∧ g.Declares access name superName) :
    ∃ g, (classesBegun (calls ++ [call]))[c]? = some g ∧ g.Declares access name superName := by
  obtain ⟨g, begun, declares⟩ := declared
  refine ⟨g, ?_, declares⟩
  obtain ⟨inside, -⟩ := List.getElem?_eq_some_iff.mp begun
  rw [classesBegun_append_singleton, List.getElem?_append_left inside]
  exact begun

theorem Recorded.owner_of_mem_begunOn (recorded : Recorded o calls a) {g : BegunMethod}
    (member : (g, m) ∈ begunOn c calls) (found : a.methods[m]? = some b) :
    g = b.begun ∧ b.owner = c := by
  obtain ⟨begun, owner⟩ := mem_begunOn.mp member
  rw [recorded.getElem?_methodsBegun found] at begun
  cases begun
  exact ⟨rfl, owner⟩

private theorem begunOn_append_of_spares (spares : call.Spares a c) :
    begunOn c (calls ++ [call]) = begunOn c calls := by
  cases call with
  | beginMethod c' access name descriptor =>
    rw [begunOn_append_of_some rfl, if_neg spares, List.append_nil]
  | _ => exact begunOn_append_of_none rfl

private theorem Tracked.kept (tracked : Tracked o calls a c B) (recorded : Recorded o calls a)
    (spares : call.Spares a c) : Tracked o (calls ++ [call]) (a.step call) c B where
  declared := declared_append tracked.declared
  sequential := by
    refine along_append_singleton.mpr ⟨tracked.sequential, ?_⟩
    cases call with
    | beginMethod c' access name descriptor =>
      intro same
      exact absurd same spares
    | _ => trivial
  methods := by
    obtain ⟨done, opened, split, follow, closed, inside, live⟩ := tracked.methods
    have same : begunOn c (calls ++ [call]) = begunOn c calls := begunOn_append_of_spares spares
    refine ⟨done, opened, same.trans split, follow.imp fun _ _ f => f.append [call],
      fun item member => (closed item member).step call, inside, fun item member => ?_⟩
    have begun : (item.1, item.2) ∈ begunOn c calls := by
      rw [split]
      exact List.mem_append_right done (Option.mem_toList.mpr member)
    refine (live item member).step ?_ ?_
    · rintro rfl
      obtain ⟨-, b, found, stage, -⟩ := live item member
      exact spares b found stage (recorded.owner_of_mem_begunOn begun found).2
    · -- Ending a class closes the method open in it, but that one was begun on another class.
      rintro c' B' rfl found openMethod
      obtain ⟨g', begun'⟩ := recorded.opened c' B' item.2 found openMethod
      obtain ⟨here, owner⟩ := mem_begunOn.mp begun
      obtain ⟨here', owner'⟩ := mem_begunOn.mp begun'
      rw [here] at here'
      cases here'
      exact spares (owner'.symm.trans owner)

theorem Tracked.all_done (tracked : Tracked o calls a c B) (idle : B.openMethod = none) :
    List.Forall₂ (fun item m => m.Follows o calls item) (begunOn c calls) B.methods.toList ∧
      ∀ item ∈ begunOn c calls, a.ClosedMethod item.2 := by
  obtain ⟨done, opened, split, follow, closed, inside, -⟩ := tracked.methods
  rw [idle, Option.map_eq_none_iff] at inside
  rw [inside, Option.toList_none, List.append_nil] at split
  rw [split]
  exact ⟨follow, closed⟩

private theorem endMethod_mem_of_forall₂ {done : List (BegunMethod × MethodId)}
    {methods : List Method}
    (follow : List.Forall₂ (fun item m => m.Follows o calls item) done methods) :
    ∀ item ∈ done, .endMethod item.2 ∈ calls := by
  induction follow with
  | nil => simp
  | cons head _ ih =>
    intro item member
    rcases List.mem_cons.mp member with rfl | member
    · exact head.ended
    · exact ih item member

private theorem openMethod_of_push (recorded : Recorded o calls a) (legal : Along Call.Legal calls)
    {access : AccessFlags} {name descriptor : Text}
    (begins : call = .beginMethod c access name descriptor)
    (methods : (a.step call).methods =
      a.methods.push { owner := c, access, name, descriptor, stage := .live }) :
    OpenMethod (calls ++ [call]) (a.step call) a.methods.size := by
  have never : .endMethod a.methods.size ∉ calls := by
    intro member
    have early := lt_of_endMethod_mem legal member
    rw [recorded.methods_size] at early
    exact Nat.lt_irrefl _ early
  refine ⟨by simp [never, begins], { owner := c, access, name, descriptor, stage := .live }, ?_,
    rfl, fun _ => ?_⟩
  · rw [methods]
    exact Array.getElem?_push_size
  · rw [emissionsOf_append_of_notMem never,
      emissionsOf_eq_nil legal (Nat.le_of_eq recorded.methods_size.symm), begins]
    exact ⟨rfl, rfl, along_nil _⟩

private theorem Tracked.opened (tracked : Tracked o calls a c B) (recorded : Recorded o calls a)
    (legal : Along Call.Legal calls) (idle : B.openMethod = none) {access : AccessFlags}
    {name descriptor : Text} (begins : call = .beginMethod c access name descriptor)
    (methods : (a.step call).methods =
      a.methods.push { owner := c, access, name, descriptor, stage := .live }) :
    Tracked o (calls ++ [call]) (a.step call) c { B with openMethod := some a.methods.size } := by
  obtain ⟨follow, closed⟩ := tracked.all_done idle
  have begun : call.begunMethod? = some ⟨c, access, name, descriptor⟩ := by
    rw [begins]
    rfl
  refine ⟨declared_append tracked.declared, ?_, ?_⟩
  · refine along_append_singleton.mpr ⟨tracked.sequential, ?_⟩
    rw [begins]
    exact fun _ => endMethod_mem_of_forall₂ follow
  · refine ⟨begunOn c calls, some (⟨c, access, name, descriptor⟩, a.methods.size), ?_, ?_, ?_, rfl,
      ?_⟩
    · rw [begunOn_append_of_some begun, if_pos rfl, ← recorded.methods_size]
      rfl
    · exact follow.imp fun _ _ f => f.append [call]
    · exact fun item member => (closed item member).step call
    · rintro item ⟨⟩
      exact openMethod_of_push recorded legal begins methods

private theorem OpenMethod.follows (inside : OpenMethod calls a m)
    (ran : a = run { options := o } calls) (found : a.methods[m]? = some b)
    (clean : b.problems.toList = []) (ok : (a.endMethod m).1 = .ok ()) (limits : Limits) :
    (b.made limits).Follows o (calls ++ [.endMethod m]) (b.begun, m) := by
  obtain ⟨never, b', found', -, tracks⟩ := inside
  rw [found] at found'
  cases found'
  have emitted : emissionsOf m (calls ++ [.endMethod m]) = emissionsOf m calls :=
    (emissionsOf_append_of_notMem never).trans (List.append_nil _)
  have before : beforeEnd m (calls ++ [.endMethod m]) = calls := by
    rw [beforeEnd_append_of_notMem never]
    simp [beforeEnd]
  refine ⟨rfl, rfl, rfl, ?_, ?_, by simp, ?_⟩
  · dsimp only
    rw [emitted]
    exact (tracks clean).instructions
  · dsimp only
    rw [emitted]
    exact (tracks clean).accepted
  · dsimp only
    rw [before, ← ran]
    exact ok

theorem closedMethod_endMethod (found : a.methods[m]? = some b) (live : b.stage = .live) :
    (a.step (.endMethod m)).ClosedMethod m := by
  refine ⟨{ b with stage := .closed }, ?_, rfl⟩
  rw [step, endMethod_of_live found live, (endLiveMethod_cases a m b).1, Array.getElem?_modify,
    if_pos rfl, found]
  rfl

private theorem Tracked.took (tracked : Tracked o calls a c B) (recorded : Recorded o calls a)
    (ran : a = run { options := o } calls) (found : a.methods[m]? = some b)
    (live : b.stage = .live) (owner : b.owner = c) (clean : b.problems.toList = [])
    (ok : (a.endMethod m).1 = .ok ()) (limits : Limits) :
    Tracked o (calls ++ [.endMethod m]) (a.step (.endMethod m)) c
      { B with openMethod := none, methods := B.methods.push (b.made limits) } := by
  obtain ⟨done, opened, split, follow, closed, inside, openMethods⟩ := tracked.methods
  have begun : (b.begun, m) ∈ begunOn c calls :=
    mem_begunOn.mpr ⟨recorded.getElem?_methodsBegun found, owner⟩
  -- The method is live and those that the class holds are closed, so it is the open one.
  have member : (b.begun, m) ∈ opened := by
    rw [split] at begun
    refine Option.mem_toList.mp ((List.mem_append.mp begun).resolve_left fun member => ?_)
    obtain ⟨b', found', stage⟩ := closed _ member
    rw [found] at found'
    cases found'
    rw [live] at stage
    cases stage
  refine ⟨declared_append tracked.declared, ?_, begunOn c calls, none, ?_, ?_, ?_, rfl, ?_⟩
  · exact along_append_singleton.mpr ⟨tracked.sequential, trivial⟩
  · rw [begunOn_append_of_none rfl, Option.toList_none, List.append_nil]
  · rw [split, Trail.toList_push, Option.mem_def.mp member]
    refine List.rel_append (follow.imp fun _ _ f => f.append [.endMethod m]) ?_
    exact .cons ((openMethods _ member).follows ran found clean ok limits) .nil
  · intro item begun
    rw [split] at begun
    rcases List.mem_append.mp begun with early | last
    · exact (closed item early).step (.endMethod m)
    · rw [Option.mem_def.mp member, Option.toList_some, List.mem_singleton] at last
      rw [last]
      exact closedMethod_endMethod found live
  · rintro item ⟨⟩

private theorem tracked_of_new (recorded : Recorded o calls a) (legal : Along Call.Legal calls)
    {name : Text} {access : AccessFlags} {supers : List Text}
    (declares : BegunClass.Declares ⟨name, access, supers⟩ B.access B.name B.superName)
    (empty : B.methods.toList = []) (idle : B.openMethod = none) :
    Tracked o (calls ++ [.beginClass name access supers])
      (a.step (.beginClass name access supers)) a.classes.size B := by
  have later : (classesBegun calls).length ≤ a.classes.size :=
    Nat.le_of_eq recorded.classes_size.symm
  refine ⟨⟨_, ?_, declares⟩, ?_, [], none, ?_, ?_, ?_, idle.symm, ?_⟩
  · rw [classesBegun_append_singleton, recorded.classes_size]
    exact List.getElem?_concat_length
  · exact along_append_singleton.mpr ⟨sequential_of_later legal later, trivial⟩
  · rw [begunOn_append_of_none rfl]
    exact begunOn_eq_nil legal later
  · rw [empty]
    exact .nil
  · simp
  · rintro item ⟨⟩

private theorem Recorded.tracked_step (recorded : Recorded o calls a)
    (ran : a = run { options := o } calls) (legal : Along Call.Legal calls)
    {B' : ClassBuilder} (found : (a.step call).classes[c]? = some B') (running : B'.ended = false)
    (clean : B'.problems.toList = []) : Tracked o (calls ++ [call]) (a.step call) c B' := by
  cases classStep found running clean with
  | new name access supers begins index declares empty idle =>
    rw [index, begins]
    exact tracked_of_new recorded legal declares empty idle
  | kept before spares =>
    exact (recorded.clean c B' before running clean).kept recorded spares
  | opened B before idle access name descriptor begins methods result =>
    subst result
    exact (recorded.clean c B before running clean).opened recorded legal idle begins methods
  | took B before m b limits ends here live owner empty ok result =>
    subst result ends
    have before := recorded.clean c B before running clean
    exact before.took recorded ran here live owner empty ok limits

private theorem Recorded.step (recorded : Recorded o calls a) (ran : a = run { options := o } calls)
    (legal : Along Call.Legal calls) (call : Call) :
    Recorded o (calls ++ [call]) (a.step call) where
  classes_size := by
    rw [classesBegun_append_singleton, List.length_append, ← recorded.classes_size]
    cases begun : call.begunClass? with
    | none =>
      obtain ⟨c, f, update⟩ := exists_classUpdate a begun
      rw [update.classes, Array.size_modify]
      rfl
    | some g =>
      cases call with
      | beginClass name access supers => exact Array.size_push _
      | _ => cases begun
  methods := by rw [map_begun_step, recorded.methods, methodsBegun_append_singleton]
  opened c B m found inside := by
    cases begun : call.begunClass? with
    | none =>
      obtain ⟨k, f, update⟩ := exists_classUpdate a begun
      rw [update.classes, Array.getElem?_modify] at found
      split_ifs at found with here
      · subst here
        obtain ⟨B, before, rfl⟩ := Option.map_eq_some_iff.mp found
        rcases update.openMethod B m inside with early | ⟨rfl, access, name, descriptor, begins⟩
        · obtain ⟨g, member⟩ := recorded.opened k B m before early
          exact ⟨g, mem_begunOn_append member⟩
        · refine ⟨⟨k, access, name, descriptor⟩, ?_⟩
          rw [begunOn_append_of_some (congrArg Call.begunMethod? begins), if_pos rfl,
            recorded.methods_size]
          exact List.mem_append_right _ List.mem_cons_self
      · obtain ⟨g, member⟩ := recorded.opened c B m found inside
        exact ⟨g, mem_begunOn_append member⟩
    | some g =>
      cases call with
      | beginClass name access supers =>
        change (a.classes.push _)[c]? = some B at found
        rw [Array.getElem?_push] at found
        split_ifs at found
        · cases found
          cases inside
        · obtain ⟨g, member⟩ := recorded.opened c B m found inside
          exact ⟨g, mem_begunOn_append member⟩
      | _ => cases begun
  clean c B found running empty := recorded.tracked_step ran legal found running empty

end

/-- Every history of calls on builders that were begun is recorded. The step needs more than the
record before it: a method that is taken ended without failure in the state reached by the run. -/
theorem recorded_run (o : Options) {calls : List Call} (legal : Along Call.Legal calls) :
    Recorded o calls (run { options := o } calls) := by
  induction calls using List.reverseRecOn with
  | nil => exact recorded_initial o
  | append_singleton calls call ih =>
    obtain ⟨before, -⟩ := along_append_singleton.mp legal
    rw [run_append_singleton]
    exact (ih before).step rfl before call

/-- A class that is ended without failure was begun with its flags, name and super class and holds
the methods begun on it, in order, each with one instruction for every emission before its end.
Nothing was rejected on the way, and each of its methods was ended before the next was begun. -/
theorem endClass_holds_history (o : Options) {calls : List Call} (legal : Along Call.Legal calls)
    {c : ClassId} {decl : ClassDecl}
    (ended : ((run { options := o } calls).endClass c).1 = .ok decl) :
    (∃ g, (classesBegun calls)[c]? = some g ∧ g.Declares decl.access decl.name decl.superName) ∧
      List.Forall₂ (fun item m => m.Follows o calls item) (begunOn c calls) decl.methods ∧
      Along (Call.Sequential c) calls := by
  obtain ⟨B, found, running, clean, idle, access, name, super, methods⟩ := endClass_eq_ok ended
  have tracked := (recorded_run o legal).clean c B found running clean
  rw [access, name, super, methods]
  exact ⟨tracked.declared, (tracked.all_done idle).1, tracked.sequential⟩

/-- Two methods of one class, with a class beside it to which a missing instruction is emitted. -/
def twoMethodHistory : List Call :=
  [.beginClass "Sum" defaultClassAccess ["Base"],
    .beginMethod 0 defaultMethodAccess "next" "(I)I", .emit 0 (.parameter "x"),
    .beginClass "Other" defaultClassAccess [], .beginMethod 1 defaultMethodAccess "main" "()V",
    .emit 1 (.instruction none), .emit 0 (.localVariable .iload "x"), .emit 0 (.loadInteger 1),
    .emit 0 (.bare .iadd), .emit 0 (.bare .ireturn), .endMethod 0,
    .beginMethod 0 defaultMethodAccess "main" "()V", .emit 2 (.loadString "hé"),
    .emit 2 (.bare .pop), .emit 2 (.bare .vreturn), .endMethod 2]

theorem endClass_holds_twoMethodHistory :
    Along Call.Legal twoMethodHistory ∧
      ∃ decl, ((run {} twoMethodHistory).endClass 0).1 = .ok decl ∧
        List.Forall₂ (fun item m => m.Follows {} twoMethodHistory item)
          (begunOn 0 twoMethodHistory) decl.methods := by
  have legal : Along Call.Legal twoMethodHistory := by decide
  have ended : ∃ decl, ((run {} twoMethodHistory).endClass 0).1 = .ok decl := ⟨_, rfl⟩
  obtain ⟨decl, ended⟩ := ended
  exact ⟨legal, decl, ended, (endClass_holds_history {} legal ended).2.1⟩

end Assembler

end JvmAssembler
