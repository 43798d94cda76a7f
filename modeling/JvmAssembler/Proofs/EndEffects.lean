import JvmAssembler.Proofs.BuilderSteps
import JvmAssembler.Proofs.UsageCounts

/-!
# What an end leaves behind

An end that fails takes no method into a class and finishes no class. It also leaves the pool as it
was, with two exceptions: that an opcode is not known, and that a class has too many methods, is
found only when the names have been counted already.
-/

set_option autoImplicit false
set_option relaxedAutoImplicit false

namespace JvmAssembler

namespace Method

private theorem problems_eq_nil_iff {name descriptor : Text} {instructions : List Instruction} :
    problems name descriptor (instructions.map some) = [] ↔
      name ≠ [] ∧ descriptor ≠ [] ∧ ∀ i ∈ instructions, i.opcode.isKnown = true := by
  have known : (instructions.map some).zipIdx.filterMap instructionProblem = [] ↔
      ∀ i ∈ instructions, i.opcode.isKnown = true := by
    rw [List.filterMap_eq_nil_iff]
    constructor
    · intro clean i member
      obtain ⟨k, found⟩ := List.mem_iff_getElem?.mp member
      have listed : (some i, k) ∈ (instructions.map some).zipIdx := by
        rw [List.mem_zipIdx_iff_getElem?, List.getElem?_map, found]
        rfl
      have fine := clean _ listed
      by_contra unknown
      simp [instructionProblem, unknown] at fine
    · rintro known ⟨i, k⟩ listed
      rw [List.mem_zipIdx_iff_getElem?, List.getElem?_map] at listed
      obtain ⟨j, found, rfl⟩ := Option.map_eq_some_iff.mp listed
      exact if_pos (known j (List.mem_of_getElem? found))
  rw [problems, List.append_eq_nil_iff, List.append_eq_nil_iff, known]
  simp [and_assoc]

private theorem exists_error_of_make_iff {access : AccessFlags} {name descriptor : Text}
    {instructions : List (Option Instruction)} {limits : Limits} :
    (∃ f, make access name descriptor instructions limits = .error f) ↔
      problems name descriptor instructions ≠ [] := by
  rw [make]
  split
  · rename_i clean
    simp [clean]
  · rename_i broken
    exact ⟨fun _ => broken, fun _ => ⟨_, rfl⟩⟩

end Method

namespace ClassDecl

private theorem problems_eq_nil_iff {name superName : Text} {methods : List Method} :
    problems name superName (methods.map some) = [] ↔
      name ≠ [] ∧ superName ≠ [] ∧ methods.length ≤ maxMethods := by
  have present : ((methods.map some).zipIdx.filterMap fun m =>
      if m.1.isNone then some (Cause.missingMethod m.2) else none) = [] := by
    rw [List.filterMap_eq_nil_iff]
    rintro ⟨m, k⟩ listed
    rw [List.mem_zipIdx_iff_getElem?, List.getElem?_map] at listed
    obtain ⟨method, -, rfl⟩ := Option.map_eq_some_iff.mp listed
    rfl
  rw [problems, present, List.append_nil]
  simp

private theorem exists_error_of_make_iff {access : AccessFlags} {name superName : Text}
    {methods : List (Option Method)} :
    (∃ f, make access name superName methods = .error f) ↔
      problems name superName methods ≠ [] := by
  rw [make]
  split
  · rename_i clean
    simp [clean]
  · rename_i broken
    exact ⟨fun _ => broken, fun _ => ⟨_, rfl⟩⟩

end ClassDecl

private theorem MethodBuilder.texts_ne_nil_of_allProblems {b : MethodBuilder}
    (clean : b.allProblems = []) : b.name ≠ [] ∧ b.descriptor ≠ [] := by
  obtain ⟨-, name, descriptor⟩ := allProblems_eq_nil_iff.mp clean
  constructor
  · intro empty
    rw [nameProblem?, if_pos empty] at name
    cases name
  · intro empty
    rw [descriptorProblem?, if_pos empty] at descriptor
    cases descriptor

private theorem ClassBuilder.texts_ne_nil_of_allProblems {b : ClassBuilder}
    {openMethod : Option Text}
    (clean : b.allProblems openMethod = []) : b.name ≠ [] ∧ b.superName ≠ [] := by
  simp only [allProblems, List.append_eq_nil_iff, List.map_eq_nil_iff] at clean
  obtain ⟨-, ⟨⟨⟨-, name⟩, super⟩, -⟩, -⟩ := clean
  constructor
  · intro empty
    rw [if_pos empty] at name
    cases name
  · intro empty
    rw [if_pos empty] at super
    cases super

namespace Assembler

/-! ### Outcomes -/

inductive MethodEnd (a : Assembler) (m : MethodId) : Except Failure Unit × Assembler → Prop where
  | idle (f : Failure) (dead : ∀ b, a.methods[m]? = some b → b.stage ≠ .live) :
    MethodEnd a m (.error f, a)
  | refused (b : MethodBuilder) (found : a.methods[m]? = some b) (live : b.stage = .live)
    (f : Failure) (reason : a.closeMethod b = .error f) :
    MethodEnd a m (.error f, (a.markClosed m b.owner).failClass b.owner f)
  | unmade (b : MethodBuilder) (found : a.methods[m]? = some b) (live : b.stage = .live)
    (limits : Limits) (closed : a.closeMethod b = .ok limits) (f : Failure)
    (reason : Method.make b.access b.name b.descriptor (b.instructions.toList.map some) limits =
      .error f) :
    MethodEnd a m (.error f, Assembler.failClass
      { a.markClosed m b.owner with table := referMethod a.table b } b.owner f)
  | taken (b : MethodBuilder) (found : a.methods[m]? = some b) (live : b.stage = .live)
    (limits : Limits) (closed : a.closeMethod b = .ok limits) (method : Method)
    (made : Method.make b.access b.name b.descriptor (b.instructions.toList.map some) limits =
      .ok method) :
    MethodEnd a m (.ok (), Assembler.addMethod
      { a.markClosed m b.owner with table := referMethod a.table b } b.owner method)

theorem methodEnd (a : Assembler) (m : MethodId) : MethodEnd a m (a.endMethod m) := by
  unfold endMethod
  split
  · rename_i missing
    exact .idle _ fun b found => by simp [missing] at found
  · rename_i b found
    have only : ∀ b', a.methods[m]? = some b' → b' = b := by
      intro b' found'
      exact Option.some.inj (found'.symm.trans found)
    split
    · rename_i stage
      exact .idle _ fun b' found' => by simp [only b' found', stage]
    · rename_i stage
      exact .idle _ fun b' found' => by simp [only b' found', stage]
    · rename_i live
      have same : (a.markClosed m b.owner).closeMethod b = a.closeMethod b := rfl
      simp only [endLiveMethod, same]
      split
      · rename_i f reason
        exact .refused b found live f reason
      · rename_i limits closed
        split
        · rename_i f reason
          exact .unmade b found live limits closed f reason
        · rename_i method made
          exact .taken b found live limits closed method made

def namedClass (a : Assembler) (c : ClassId) (B : ClassBuilder) : Assembler :=
  ((a.markEnded c B).refer (.classRef B.name)).refer (.classRef B.superName)

/-- The state in which a class was made. The first class begun is the finished one. -/
def withClass (a : Assembler) (c : ClassId) (B : ClassBuilder) (decl : ClassDecl) : Assembler :=
  if c = 0 then { a.namedClass c B with finished := some (c, decl) } else a.namedClass c B

inductive ClassEnd (a : Assembler) (c : ClassId) : Except Failure ClassDecl × Assembler → Prop where
  | past (f : Failure) (ended : ∀ B, a.classes[c]? = some B → B.ended = true) :
    ClassEnd a c (.error f, a)
  | refused (B : ClassBuilder) (found : a.classes[c]? = some B) (running : B.ended = false)
    (f : Failure) (problems : B.allProblems (a.openMethodText? B) ≠ []) :
    ClassEnd a c (.error f, a.markEnded c B)
  | unmade (B : ClassBuilder) (found : a.classes[c]? = some B) (running : B.ended = false)
    (clean : B.allProblems (a.openMethodText? B) = []) (f : Failure)
    (reason : ClassDecl.make B.access B.name B.superName (B.methods.toList.map some) = .error f) :
    ClassEnd a c (.error f, a.namedClass c B)
  | made (B : ClassBuilder) (found : a.classes[c]? = some B) (running : B.ended = false)
    (clean : B.allProblems (a.openMethodText? B) = []) (decl : ClassDecl)
    (done : ClassDecl.make B.access B.name B.superName (B.methods.toList.map some) = .ok decl) :
    ClassEnd a c (.ok decl, (a.withClass c B decl).report
      (classEvent (a.withClass c B decl).table decl))

theorem classEnd (a : Assembler) (c : ClassId) : ClassEnd a c (a.endClass c) := by
  unfold endClass
  split
  · rename_i missing
    exact .past _ fun B found => by simp [missing] at found
  · rename_i B found
    split_ifs with past
    · refine .past _ fun B' found' => ?_
      rw [Option.some.inj (found'.symm.trans found)]
      exact past
    · have running : B.ended = false := by simpa using past
      dsimp only
      split
      · rename_i clean
        rw [finishClass]
        dsimp only
        split
        · rename_i f reason
          exact .unmade B found running clean f reason
        · rename_i decl done
          exact .made B found running clean decl done
      · rename_i problems
        exact .refused B found running _ problems

/-! ### What the outcomes have in common -/

section

variable (a : Assembler) (c : ClassId) (B : ClassBuilder)

private theorem classes_namedClass : (a.namedClass c B).classes =
    a.classes.modify c fun B => { B with ended := true, openMethod := none } := by
  simp only [namedClass, refer, markEnded_eq]

private theorem finished_namedClass : (a.namedClass c B).finished = a.finished := by
  simp only [namedClass, refer, markEnded_eq]

theorem table_namedClass : (a.namedClass c B).table =
    (a.table.refer (.classRef B.name)).refer (.classRef B.superName) := by
  simp only [namedClass, refer, markEnded_eq]

variable (decl : ClassDecl)

private theorem classes_withClass : (a.withClass c B decl).classes =
    a.classes.modify c fun B => { B with ended := true, openMethod := none } := by
  rw [withClass]
  split_ifs
  · simp only [classes_namedClass]
  · exact classes_namedClass a c B

private theorem finished_withClass : (a.withClass c B decl).finished =
    if c = 0 then some (c, decl) else a.finished := by
  rw [withClass]
  split_ifs
  · rfl
  · exact finished_namedClass a c B

theorem table_withClass : (a.withClass c B decl).table =
    (a.table.refer (.classRef B.name)).refer (.classRef B.superName) := by
  rw [withClass]
  split_ifs
  · simp only [table_namedClass]
  · exact table_namedClass a c B

end

def methodsTaken (a : Assembler) : List (List Method) := a.classes.toList.map (·.methods.toList)

section

variable {a : Assembler} {m : MethodId} {c : ClassId}

private theorem map_methods_modify (classes : Array ClassBuilder) (c : ClassId)
    {f : ClassBuilder → ClassBuilder} (kept : ∀ B, (f B).methods = B.methods) :
    (classes.modify c f).toList.map (·.methods.toList) = classes.toList.map (·.methods.toList) := by
  rw [Array.toList_modify]
  apply List.ext_getElem?
  intro k
  rw [List.getElem?_map, List.getElem?_map, List.getElem?_modify]
  cases classes.toList[k]? with
  | none => rfl
  | some B =>
    refine congrArg some ?_
    split_ifs
    · exact congrArg Trail.toList (kept B)
    · rfl

theorem finished_endMethod (a : Assembler) (m : MethodId) :
    (a.endMethod m).2.finished = a.finished := by
  have outcome := a.methodEnd m
  generalize a.endMethod m = result at outcome ⊢
  cases outcome <;> rfl

private theorem methodsTaken_endMethod {f : Failure} (failed : (a.endMethod m).1 = .error f) :
    (a.endMethod m).2.methodsTaken = a.methodsTaken := by
  have outcome := a.methodEnd m
  generalize a.endMethod m = result at outcome failed ⊢
  have spoiled : ∀ (c : ClassId) (g : Failure), ((a.classes.modify c fun B =>
      { B with openMethod := none }).modify c (·.fail g)).toList.map (·.methods.toList) =
        a.methodsTaken := by
    intro c g
    have failing := map_methods_modify (a.classes.modify c fun B => { B with openMethod := none }) c
      (f := (·.fail g)) (fun _ => rfl)
    exact failing.trans (map_methods_modify a.classes c fun _ => rfl)
  cases outcome with
  | idle => rfl
  | refused b found live g reason => exact spoiled b.owner g
  | unmade b found live limits closed g reason => exact spoiled b.owner g
  | taken => cases failed

private theorem methodsTaken_endClass (a : Assembler) (c : ClassId) :
    (a.endClass c).2.methodsTaken = a.methodsTaken := by
  have outcome := a.classEnd c
  generalize a.endClass c = result at outcome ⊢
  have marked : ∀ a' : Assembler, a'.classes = (a.classes.modify c fun B =>
      { B with ended := true, openMethod := none }) → a'.methodsTaken = a.methodsTaken := by
    intro a' classes
    rw [methodsTaken, classes]
    exact map_methods_modify a.classes c fun _ => rfl
  cases outcome with
  | past => rfl
  | refused B => exact marked _ (congrArg Assembler.classes (markEnded_eq a c B))
  | unmade B => exact marked _ (classes_namedClass a c B)
  | made B found running clean decl => exact marked _ (classes_withClass a c B decl)

theorem finished_endClass_of_error {f : Failure} (failed : (a.endClass c).1 = .error f) :
    (a.endClass c).2.finished = a.finished := by
  have outcome := a.classEnd c
  generalize a.endClass c = result at outcome failed ⊢
  cases outcome with
  | past => rfl
  | refused B => simp only [markEnded_eq]
  | unmade B => exact finished_namedClass a c B
  | made => cases failed

theorem finished_endClass_of_ok {decl : ClassDecl} (ended : (a.endClass c).1 = .ok decl) :
    (a.endClass c).2.finished = if c = 0 then some (c, decl) else a.finished := by
  have outcome := a.classEnd c
  generalize a.endClass c = result at outcome ended ⊢
  cases outcome with
  | made B found running clean decl' =>
    cases ended
    exact finished_withClass a c B decl
  | _ => cases ended

end

/-! ### What a failed end leaves in the pool -/

structure WrongInOpcode (a : Assembler) (m : MethodId) (b : MethodBuilder) : Prop where
  found : a.methods[m]? = some b
  live : b.stage = .live
  clean : b.allProblems = []
  limited : ∃ limits, a.methodLimits b = .ok limits
  unknown : ∃ i ∈ b.instructions.toList, i.opcode.isKnown = false

structure WrongInCount (a : Assembler) (c : ClassId) (B : ClassBuilder) : Prop where
  found : a.classes[c]? = some B
  running : B.ended = false
  clean : B.allProblems (a.openMethodText? B) = []
  many : ClassDecl.maxMethods < B.methods.length

private theorem referMethod_ne (t : Table) (b : MethodBuilder) : referMethod t b ≠ t := by
  intro same
  have counted := congrArg (fun t : Table => t.count (.utf8 b.descriptor)) same
  simp only [referMethod, Table.count_refer, Symbol.count_referenceTree_self] at counted
  split_ifs at counted
  · omega
  · simp only [Table.count_refer] at counted
    omega

private theorem refer_refer_ne (t : Table) (r s : Symbol) : (t.refer r).refer s ≠ t := by
  intro same
  have counted := congrArg (fun t : Table => t.count s) same
  simp only [Table.count_refer, Symbol.count_referenceTree_self] at counted
  omega

section

variable {a : Assembler} {m : MethodId} {c : ClassId} {f : Failure}

private theorem table_endMethod_of_error (failed : (a.endMethod m).1 = .error f) :
    (¬ (∃ b, a.WrongInOpcode m b) ∧ (a.endMethod m).2.table = a.table) ∨
      ∃ b, a.WrongInOpcode m b ∧ (a.endMethod m).2.table = referMethod a.table b := by
  have outcome := a.methodEnd m
  generalize a.endMethod m = result at outcome failed ⊢
  cases outcome with
  | idle g dead =>
    refine Or.inl ⟨?_, rfl⟩
    rintro ⟨b, wrong⟩
    exact dead b wrong.found wrong.live
  | refused b found live g reason =>
    refine Or.inl ⟨?_, rfl⟩
    rintro ⟨b', wrong⟩
    have same : b' = b := Option.some.inj (wrong.found.symm.trans found)
    subst same
    obtain ⟨limits, limited⟩ := wrong.limited
    rw [closeMethod, wrong.clean] at reason
    exact absurd (limited.symm.trans reason) (by simp)
  | unmade b found live limits closed g reason =>
    obtain ⟨clean, limited⟩ := closeMethod_eq_ok closed
    obtain ⟨name, descriptor⟩ := b.texts_ne_nil_of_allProblems clean
    have broken := Method.exists_error_of_make_iff.mp ⟨g, reason⟩
    have unknown : ∃ i ∈ b.instructions.toList, i.opcode.isKnown = false := by
      by_contra all
      simp only [not_exists, not_and, Bool.not_eq_false] at all
      exact broken (Method.problems_eq_nil_iff.mpr ⟨name, descriptor, all⟩)
    exact Or.inr ⟨b, ⟨found, live, clean, ⟨limits, limited⟩, unknown⟩, rfl⟩
  | taken => cases failed

private theorem table_endClass_of_error (failed : (a.endClass c).1 = .error f) :
    (¬ (∃ B, a.WrongInCount c B) ∧ (a.endClass c).2.table = a.table) ∨
      ∃ B, a.WrongInCount c B ∧ (a.endClass c).2.table =
        (a.table.refer (.classRef B.name)).refer (.classRef B.superName) := by
  have outcome := a.classEnd c
  generalize a.endClass c = result at outcome failed ⊢
  cases outcome with
  | past g ended =>
    refine Or.inl ⟨?_, rfl⟩
    rintro ⟨B, wrong⟩
    have past := ended B wrong.found
    rw [wrong.running] at past
    cases past
  | refused B found running g problems =>
    refine Or.inl ⟨?_, ?_⟩
    · rintro ⟨B', wrong⟩
      have same : B' = B := Option.some.inj (wrong.found.symm.trans found)
      exact problems (same ▸ wrong.clean)
    · simp only [markEnded_eq]
  | unmade B found running clean g reason =>
    obtain ⟨name, super⟩ := B.texts_ne_nil_of_allProblems clean
    have broken := ClassDecl.exists_error_of_make_iff.mp ⟨g, reason⟩
    have many : ClassDecl.maxMethods < B.methods.length := by
      by_contra few
      rw [Nat.not_lt, ← Trail.length_toList] at few
      exact broken (ClassDecl.problems_eq_nil_iff.mpr ⟨name, super, few⟩)
    exact Or.inr ⟨B, ⟨found, running, clean, many⟩, table_namedClass a c B⟩
  | made => cases failed

end

/-- An end that fails, of a method or of a class, takes no method into any class and leaves the
finished class alone. It leaves the pool as it was exactly if what fails is neither a method that is
only wrong in an opcode nor a class that is only wrong in the number of its methods. From these two
the names are left in the pool. -/
theorem failed_end_keeps_pool (a : Assembler) :
    (∀ m f, (a.endMethod m).1 = .error f →
      (a.endMethod m).2.current = a.current ∧
      (a.endMethod m).2.methodsTaken = a.methodsTaken ∧
      ((a.endMethod m).2.table = a.table ↔ ¬ ∃ b, a.WrongInOpcode m b) ∧
      ∀ b, a.WrongInOpcode m b → (a.endMethod m).2.table = referMethod a.table b) ∧
    ∀ c f, (a.endClass c).1 = .error f →
      (a.endClass c).2.current = a.current ∧
      (a.endClass c).2.methodsTaken = a.methodsTaken ∧
      ((a.endClass c).2.table = a.table ↔ ¬ ∃ B, a.WrongInCount c B) ∧
      ∀ B, a.WrongInCount c B → (a.endClass c).2.table =
        (a.table.refer (.classRef B.name)).refer (.classRef B.superName) := by
  constructor
  · intro m f failed
    refine ⟨?_, methodsTaken_endMethod failed, ?_⟩
    · rw [current, finished_endMethod]
      rfl
    rcases table_endMethod_of_error failed with ⟨fine, same⟩ | ⟨b, wrong, counted⟩
    · exact ⟨⟨fun _ => fine, fun _ => same⟩, fun b wrong => absurd ⟨b, wrong⟩ fine⟩
    · refine ⟨⟨fun same => ?_, fun fine => absurd ⟨b, wrong⟩ fine⟩, fun b' wrong' => ?_⟩
      · rw [counted] at same
        exact absurd same (referMethod_ne a.table b)
      · rw [counted, Option.some.inj (wrong'.found.symm.trans wrong.found)]
  · intro c f failed
    refine ⟨?_, methodsTaken_endClass a c, ?_⟩
    · rw [current, finished_endClass_of_error failed]
      rfl
    rcases table_endClass_of_error failed with ⟨fine, same⟩ | ⟨B, wrong, counted⟩
    · exact ⟨⟨fun _ => fine, fun _ => same⟩, fun B wrong => absurd ⟨B, wrong⟩ fine⟩
    · refine ⟨⟨fun same => ?_, fun fine => absurd ⟨B, wrong⟩ fine⟩, fun B' wrong' => ?_⟩
      · rw [counted] at same
        exact absurd same (refer_refer_ne a.table _ _)
      · rw [counted, Option.some.inj (wrong'.found.symm.trans wrong.found)]

/-- A method with a string, an unknown opcode and a descriptor that is none. -/
def misdescribedHistory : List Call :=
  [.beginClass "A" defaultClassAccess [], .beginMethod 0 defaultMethodAccess "f" "V",
    .emit 0 (.loadString "x"), .emit 0 (.instruction (some (.bare ⟨0xFE⟩)))]

/-- The descriptor is looked at before the names are counted. -/
theorem failed_end_keeps_pool_of_misdescribed :
    (∃ f, ((run {} misdescribedHistory).endMethod 0).1 = .error f) ∧
      ((run {} misdescribedHistory).endMethod 0).2.table = (run {} misdescribedHistory).table := by
  have failed : ∃ f, ((run {} misdescribedHistory).endMethod 0).1 = .error f := ⟨_, rfl⟩
  obtain ⟨f, failed⟩ := failed
  have fine : ¬ ∃ b, (run {} misdescribedHistory).WrongInOpcode 0 b := by
    rintro ⟨b, wrong⟩
    have broken : ∃ b', (run {} misdescribedHistory).methods[0]? = some b' ∧
        b'.allProblems ≠ [] := ⟨_, rfl, by decide⟩
    obtain ⟨b', found, problems⟩ := broken
    rw [Option.some.inj (found.symm.trans wrong.found)] at problems
    exact problems wrong.clean
  exact ⟨⟨f, failed⟩, ((failed_end_keeps_pool _).1 0 f failed).2.2.1.mpr fine⟩

/-- A method with an unknown opcode. -/
def unknownOpcodeHistory : List Call :=
  [.beginClass "A" defaultClassAccess [], .beginMethod 0 defaultMethodAccess "f" "()V",
    .emit 0 (.instruction (some (.bare ⟨0xFE⟩)))]

/-- The end of this method fails and leaves its name in the pool. -/
theorem endMethod_counts_name_and_fails :
    Along Call.Legal unknownOpcodeHistory ∧
      (∃ f, ((run {} unknownOpcodeHistory).endMethod 0).1 = .error f) ∧
      (run {} unknownOpcodeHistory).table.count (.utf8 "f") = 0 ∧
      ((run {} unknownOpcodeHistory).endMethod 0).2.table.count (.utf8 "f") = 1 := by
  refine ⟨by decide, ⟨_, rfl⟩, Table.count_empty _, ?_⟩
  have after : ((run {} unknownOpcodeHistory).endMethod 0).2.table =
      Table.empty.internAll [.utf8 "Code", .utf8 "f", .utf8 "()V"] := rfl
  rw [after, Table.count_internAll, Table.count_empty]
  decide

end Assembler

end JvmAssembler
