import Mathlib.Tactic.SplitIfs
import JvmAssembler.Proofs.CallHistory

/-!
# Steps of builders

What single operations of builders check, change and leave alone: a method or class that was made
had nothing wrong with its declaration and holds what was declared, and an emission changes neither
a method's declaration nor its stage.
-/

set_option autoImplicit false
set_option relaxedAutoImplicit false

namespace JvmAssembler

theorem valid_of_invalidText?_eq_none {what text : Text}
    (accepted : invalidText? what text = none) : Utf8.isValid text = true := by
  rw [invalidText?] at accepted
  split_ifs at accepted with valid
  exact valid

theorem MethodBuilder.allProblems_eq_nil_iff {b : MethodBuilder} :
    b.allProblems = [] ↔
      b.problems.toList = [] ∧ b.nameProblem? = none ∧ b.descriptorProblem? = none := by
  simp [allProblems]

theorem MethodBuilder.texts_valid_of_allProblems {b : MethodBuilder} (clean : b.allProblems = []) :
    Utf8.isValid b.name = true ∧ Utf8.isValid b.descriptor = true := by
  obtain ⟨-, name, descriptor⟩ := allProblems_eq_nil_iff.mp clean
  constructor
  · rw [nameProblem?] at name
    split_ifs at name
    exact valid_of_invalidText?_eq_none name
  · rw [descriptorProblem?] at descriptor
    split_ifs at descriptor
    exact valid_of_invalidText?_eq_none (Option.or_eq_none_iff.mp descriptor).1

theorem ClassBuilder.of_allProblems_eq_nil {b : ClassBuilder} {openMethod : Option Text}
    (clean : b.allProblems openMethod = []) :
    b.problems.toList = [] ∧ openMethod = none ∧ Utf8.isValid b.name = true ∧
      Utf8.isValid b.superName = true := by
  simp only [allProblems, List.append_eq_nil_iff, List.map_eq_nil_iff, Option.toList_eq_nil_iff,
    Option.map_eq_none_iff] at clean
  obtain ⟨problems, ⟨⟨⟨closed, -⟩, -⟩, name⟩, super⟩ := clean
  exact ⟨problems, closed, valid_of_invalidText?_eq_none name,
    valid_of_invalidText?_eq_none super⟩

theorem ClassDecl.eq_of_make_eq_ok {access : AccessFlags} {name superName : Text}
    {methods : List Method} {c : ClassDecl}
    (made : make access name superName (methods.map some) = .ok c) :
    c.access = access ∧ c.name = name ∧ c.superName = superName ∧ c.methods = methods := by
  rw [make] at made
  split at made
  · cases made
    simp
  · cases made

theorem Method.eq_of_make_eq_ok {access : AccessFlags} {name descriptor : Text}
    {instructions : List Instruction} {limits : Limits} {m : Method}
    (made : make access name descriptor (instructions.map some) limits = .ok m) :
    m = ⟨access, name, descriptor, instructions, limits⟩ := by
  rw [make] at made
  split at made
  · cases made
    simp
  · cases made

theorem Assembler.closeMethod_eq_ok {a : Assembler} {b : MethodBuilder} {limits : Limits}
    (closed : a.closeMethod b = .ok limits) :
    b.allProblems = [] ∧ a.methodLimits b = .ok limits := by
  rw [closeMethod] at closed
  split at closed
  · rename_i clean
    exact ⟨clean, closed⟩
  · cases closed

namespace MethodBuilder

def made (b : MethodBuilder) (limits : Limits) : Method :=
  ⟨b.access, b.name, b.descriptor, b.instructions.toList, limits⟩

theorem instructions_slotFor (b : MethodBuilder) (name : Text) :
    (b.slotFor name).1.instructions = b.instructions := by
  rw [slotFor]
  split
  · rfl
  · dsimp only
    split_ifs
    · rfl
    · rfl

def begun (b : MethodBuilder) : BegunMethod := ⟨b.owner, b.access, b.name, b.descriptor⟩

private def frame (b : MethodBuilder) : BegunMethod × Stage := (b.begun, b.stage)

private theorem frame_slotFor (b : MethodBuilder) (name : Text) :
    (b.slotFor name).1.frame = b.frame := by
  rw [slotFor]
  split
  · rfl
  · dsimp only
    split_ifs
    · rfl
    · rfl

private theorem frame_add (b : MethodBuilder) (i : Instruction) :
    (b.add i).builder.frame = b.frame := by
  rw [add]
  split
  · rfl
  · rfl
  · rfl

private theorem frame_withTexts (b : MethodBuilder) (what : Text) (texts : List Text) {go : Emitted}
    (kept : go.builder.frame = b.frame) : (b.withTexts what texts go).builder.frame = b.frame := by
  rw [withTexts]
  split
  · rw [rejectText]
    split_ifs
    · rfl
    · rfl
  · exact kept

private theorem frame_emit (b : MethodBuilder) (e : Emission) :
    (b.emit e).builder.frame = b.frame := by
  cases e with
  | instruction i =>
    cases i with
    | none => rfl
    | some i => exact frame_add b i
  | parameter name =>
    rw [emit]
    split_ifs
    · rfl
    · exact frame_slotFor b name
  | localVariable op name => exact (frame_add _ _).trans (frame_slotFor b name)
  | loadString text => exact frame_withTexts b _ _ (frame_add b _)
  | loadInteger value =>
    rw [emit]
    split_ifs
    · rfl
    · exact frame_add b _
  | field op owner name descriptor => exact frame_withTexts b _ _ (frame_add b _)
  | method op owner name descriptor => exact frame_withTexts b _ _ (frame_add b _)
  | bare op => exact frame_add b _

theorem stage_slotFor (b : MethodBuilder) (name : Text) :
    (b.slotFor name).1.stage = b.stage := congrArg Prod.snd (frame_slotFor b name)

theorem begun_emit (b : MethodBuilder) (e : Emission) : (b.emit e).builder.begun = b.begun :=
  congrArg Prod.fst (frame_emit b e)

theorem stage_emit (b : MethodBuilder) (e : Emission) : (b.emit e).builder.stage = b.stage :=
  congrArg Prod.snd (frame_emit b e)

end MethodBuilder

namespace Assembler

section

variable {a : Assembler} {m : MethodId} {b : MethodBuilder}

theorem setIfInBounds_eq_modify {α : Type} {xs : Array α} {k : Nat} {x : α}
    (found : xs[k]? = some x) (f : α → α) : xs.setIfInBounds k (f x) = xs.modify k f := by
  apply Array.ext_getElem?
  intro j
  rw [Array.getElem?_setIfInBounds, Array.getElem?_modify]
  split_ifs with here inside
  · rw [← here, found]
    rfl
  · rw [← here, Array.getElem?_eq_none (Nat.le_of_not_lt inside)]
    rfl
  · rfl

theorem modify_congr {α : Type} {xs : Array α} {k : Nat} {x : α} {f g : α → α}
    (found : xs[k]? = some x) (same : f x = g x) : xs.modify k f = xs.modify k g := by
  rw [← setIfInBounds_eq_modify found f, ← setIfInBounds_eq_modify found g, same]

theorem emit_of_getElem?_eq_some (found : a.methods[m]? = some b) (e : Emission) :
    a.emit m e =
      { a with
        methods := a.methods.modify m fun b => (b.emit e).builder
        table := (b.emit e).symbol.elim a.table a.table.refer
        classes := (b.emit e).classProblem.elim a.classes
          fun f => a.classes.modify b.owner (·.fail f) } := by
  rw [← setIfInBounds_eq_modify found fun b => (b.emit e).builder]
  simp only [emit, found]
  cases (b.emit e).symbol with
  | none => cases (b.emit e).classProblem <;> rfl
  | some s => cases (b.emit e).classProblem <;> rfl

theorem methods_emit (found : a.methods[m]? = some b) (e : Emission) :
    (a.emit m e).methods = a.methods.modify m fun b => (b.emit e).builder := by
  rw [emit_of_getElem?_eq_some found]

theorem classes_emit (found : a.methods[m]? = some b) (e : Emission) :
    (a.emit m e).classes = a.classes ∨
      ∃ f, (a.emit m e).classes = a.classes.modify b.owner (·.fail f) := by
  rw [emit_of_getElem?_eq_some found]
  cases (b.emit e).classProblem with
  | none => exact Or.inl rfl
  | some f => exact Or.inr ⟨f, rfl⟩

theorem emit_of_getElem?_eq_none (missing : a.methods[m]? = none) (e : Emission) :
    a.emit m e = a := by
  simp only [emit, missing]

theorem beginMethod_cases (a : Assembler) (c : ClassId) (access : AccessFlags)
    (name descriptor : Text) :
    (∃ f, (a.beginMethod c access name descriptor).2.methods =
        a.methods.push { owner := c, access, name, descriptor, stage := .detached } ∧
      (a.beginMethod c access name descriptor).2.classes = a.classes.modify c (·.fail f)) ∨
    ((∀ B, a.classes[c]? = some B → B.ended = false ∧ B.openMethod = none) ∧
      (a.beginMethod c access name descriptor).2.methods =
        a.methods.push { owner := c, access, name, descriptor, stage := .live } ∧
      (a.beginMethod c access name descriptor).2.classes =
        a.classes.modify c fun B => { B with openMethod := some a.methods.size }) := by
  unfold beginMethod
  cases problem : (a.classes[c]?).bind fun b => a.beginMethodProblem? b (name ++ descriptor) with
  | some f => exact Or.inl ⟨f, rfl, rfl⟩
  | none =>
    refine Or.inr ⟨fun B found => ?_, rfl, rfl⟩
    rw [found, Option.bind_some, beginMethodProblem?] at problem
    split_ifs at problem with ended
    refine ⟨by simpa using ended, ?_⟩
    simpa [openMethodText?] using problem

theorem endLiveMethod_cases (a : Assembler) (m : MethodId) (b : MethodBuilder) :
    (a.endLiveMethod m b).2.methods =
        a.methods.modify m (fun b => { b with stage := .closed }) ∧
      ((∃ f, (a.endLiveMethod m b).2.classes =
          (a.classes.modify b.owner fun B => { B with openMethod := none }).modify b.owner
            (·.fail f)) ∨
        ∃ limits, b.problems.toList = [] ∧ (a.endLiveMethod m b).1 = .ok () ∧
          (a.endLiveMethod m b).2.classes =
            (a.classes.modify b.owner fun B => { B with openMethod := none }).modify b.owner
              fun B => { B with methods := B.methods.push (b.made limits) }) := by
  rw [endLiveMethod]
  dsimp only
  split
  · rename_i f _
    exact ⟨rfl, Or.inl ⟨f, rfl⟩⟩
  · rename_i limits closed
    obtain ⟨clean, -⟩ := closeMethod_eq_ok closed
    split
    · rename_i f _
      exact ⟨rfl, Or.inl ⟨f, rfl⟩⟩
    · rename_i method made
      refine ⟨rfl, Or.inr ⟨limits, (MethodBuilder.allProblems_eq_nil_iff.mp clean).1, rfl, ?_⟩⟩
      rw [Method.eq_of_make_eq_ok made]
      rfl

theorem endMethod_of_live (found : a.methods[m]? = some b) (live : b.stage = .live) :
    a.endMethod m = a.endLiveMethod m b := by
  simp only [endMethod, found, live]

theorem endMethod_cases (a : Assembler) (m : MethodId) :
    ((∀ b, a.methods[m]? = some b → b.stage ≠ .live) ∧ (a.endMethod m).2 = a) ∨
      ∃ b, a.methods[m]? = some b ∧ b.stage = .live := by
  by_cases live : ∃ b, a.methods[m]? = some b ∧ b.stage = .live
  · exact Or.inr live
  · refine Or.inl ⟨fun b found stage => live ⟨b, found, stage⟩, ?_⟩
    rw [endMethod]
    split
    · rfl
    · rename_i b found
      split
      · rfl
      · rfl
      · rename_i stage
        exact absurd ⟨b, found, stage⟩ live

end

private def builders (a : Assembler) : Array ClassBuilder × Array MethodBuilder :=
  (a.classes, a.methods)

private theorem builders_refer (a : Assembler) (s : Symbol) : (a.refer s).builders = a.builders :=
  rfl

private theorem builders_report (a : Assembler) (e : Log.Event) :
    (a.report e).builders = a.builders := rfl

private theorem builders_finishClass (a : Assembler) (c : ClassId) (B : ClassBuilder) :
    (a.finishClass c B).2.builders = a.builders := by
  unfold finishClass
  generalize first : (a.refer (.classRef B.name)).refer (.classRef B.superName) = a'
  have same : a'.builders = a.builders := by
    rw [← first, builders_refer, builders_refer]
  cases ClassDecl.make B.access B.name B.superName (B.methods.toList.map some) with
  | error f => exact same
  | ok decl =>
    dsimp only
    rw [builders_report]
    split_ifs
    · exact same
    · exact same

theorem markEnded_eq (a : Assembler) (c : ClassId) (B : ClassBuilder) : a.markEnded c B =
    { a with
      classes := a.classes.modify c fun B => { B with ended := true, openMethod := none }
      methods := match B.openMethod with
        | some m => a.methods.modify m fun b => { b with stage := .closed }
        | none => a.methods } := by
  rw [markEnded]
  cases B.openMethod with
  | none => rfl
  | some m => rfl

private theorem builders_endClass {a : Assembler} {c : ClassId} {B : ClassBuilder}
    (found : a.classes[c]? = some B) (running : B.ended = false) :
    (a.endClass c).2.builders = (a.markEnded c B).builders := by
  simp only [endClass, found, running]
  rw [if_neg (by decide)]
  split
  · exact builders_finishClass (a.markEnded c B) c B
  · rfl

theorem endClass_cases (a : Assembler) (c : ClassId) :
    ((∀ B, a.classes[c]? = some B → B.ended = true) ∧ (a.endClass c).2 = a) ∨
      ∃ B, a.classes[c]? = some B ∧
        (a.endClass c).2.classes =
          a.classes.modify c (fun B => { B with ended := true, openMethod := none }) ∧
        (a.endClass c).2.methods =
          match B.openMethod with
          | some m => a.methods.modify m fun b => { b with stage := .closed }
          | none => a.methods := by
  by_cases running : ∃ B, a.classes[c]? = some B ∧ B.ended = false
  · obtain ⟨B, found, running⟩ := running
    have marked := builders_endClass found running
    rw [markEnded_eq] at marked
    exact Or.inr ⟨B, found, congrArg Prod.fst marked, congrArg Prod.snd marked⟩
  · have ended : ∀ B, a.classes[c]? = some B → B.ended = true := by
      intro B found
      by_contra unfinished
      exact running ⟨B, found, by simpa using unfinished⟩
    refine Or.inl ⟨ended, ?_⟩
    rw [endClass]
    split
    · rfl
    · rename_i B found
      rw [if_pos (ended B found)]

private theorem finishClass_eq_ok {a : Assembler} {c : ClassId} {B : ClassBuilder}
    {decl : ClassDecl} (finished : (a.finishClass c B).1 = .ok decl) :
    ClassDecl.make B.access B.name B.superName (B.methods.toList.map some) = .ok decl := by
  unfold finishClass at finished
  cases made : ClassDecl.make B.access B.name B.superName (B.methods.toList.map some) with
  | error f =>
    rw [made] at finished
    cases finished
  | ok decl' =>
    rw [made] at finished
    cases finished
    rfl

theorem endClass_eq_ok {a : Assembler} {c : ClassId} {decl : ClassDecl}
    (ended : (a.endClass c).1 = .ok decl) :
    ∃ B, a.classes[c]? = some B ∧ B.ended = false ∧ B.problems.toList = [] ∧
      B.openMethod = none ∧ decl.access = B.access ∧ decl.name = B.name ∧
      decl.superName = B.superName ∧ decl.methods = B.methods.toList := by
  rw [endClass] at ended
  split at ended
  · cases ended
  · rename_i B found
    split_ifs at ended with active
    dsimp only at ended
    split at ended
    · rename_i clean
      obtain ⟨problems, closed, -, -⟩ := ClassBuilder.of_allProblems_eq_nil clean
      exact ⟨B, found, by simpa using active, problems, Option.map_eq_none_iff.mp closed,
        ClassDecl.eq_of_make_eq_ok (finishClass_eq_ok ended)⟩
    · cases ended

end Assembler

end JvmAssembler
