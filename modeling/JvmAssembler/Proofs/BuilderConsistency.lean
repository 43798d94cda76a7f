import JvmAssembler.Proofs.BuilderSteps
import JvmAssembler.Proofs.Interning
import JvmAssembler.Proofs.WriteOutcome

/-!
# Builders make consistent classes

Whatever is called on an assembler, and however it is misused, the symbols of what it has taken in
are interned, with everything they refer to, and their texts are UTF-8. A class that was ended can
therefore be written unless something in it outgrows its field.
-/

set_option autoImplicit false
set_option relaxedAutoImplicit false

namespace JvmAssembler

namespace Symbol

def texts : Symbol → List Text
  | .utf8 text => [text]
  | .integer _ => []
  | .classRef name => [name]
  | .string text => [text]
  | .nameAndType name descriptor => [name, descriptor]
  | .fieldRef owner name descriptor => [owner, name, descriptor]
  | .methodRef owner name descriptor => [owner, name, descriptor]

def TextsValid (s : Symbol) : Prop := ∀ text ∈ s.texts, Utf8.isValid text = true

instance (s : Symbol) : Decidable s.TextsValid :=
  inferInstanceAs (Decidable (∀ text ∈ s.texts, Utf8.isValid text = true))

private theorem textsValid_of_texts_eq {s : Symbol} {text : Text} (only : s.texts = [text])
    (valid : Utf8.isValid text = true) : s.TextsValid := by
  intro other member
  rw [only] at member
  cases List.mem_singleton.mp member
  exact valid

private theorem mem_texts_of_mem_uses {s : Symbol} {text : Text} (used : .utf8 text ∈ s.uses) :
    text ∈ s.texts := by
  cases s <;> simp_all [uses, texts]

end Symbol

namespace Table

private theorem TextsValid.refer {t : Table} (valid : t.TextsValid) {s : Symbol}
    (texts : s.TextsValid) : (t.refer s).TextsValid := by
  intro text held
  rw [contains_refer] at held
  rcases held with used | held
  · exact texts text (Symbol.mem_texts_of_mem_uses used)
  · exact valid text held

private theorem Holds.mono {t t' : Table} {symbol : Option Symbol} (held : t.Holds symbol)
    (grown : t.Extends t') : t'.Holds symbol := by
  obtain ⟨s, equal, inside⟩ := held
  exact ⟨s, equal, grown s inside⟩

end Table

private theorem Method.Interned.mono {t t' : Table} {m : Method} (interned : m.Interned t)
    (grown : t.Extends t') : m.Interned t' where
  name := grown _ interned.name
  descriptor := grown _ interned.descriptor
  code hasCode := grown _ (interned.code hasCode)
  symbols symbol used := (interned.symbols symbol used).mono grown

def MethodBuilder.Interned (t : Table) (b : MethodBuilder) : Prop :=
  ∀ i ∈ b.instructions.toList, ∀ symbol ∈ i.symbols, t.Holds symbol

def ClassBuilder.Interned (t : Table) (b : ClassBuilder) : Prop :=
  ∀ m ∈ b.methods.toList, m.Interned t

structure ClassDecl.Interned (t : Table) (c : ClassDecl) : Prop where
  this : t.contains (.classRef c.name) = true
  super : t.contains (.classRef c.superName) = true
  methods : ∀ m ∈ c.methods, m.Interned t

private theorem ClassDecl.Interned.mono {t t' : Table} {c : ClassDecl} (interned : c.Interned t)
    (grown : t.Extends t') : c.Interned t' where
  this := grown _ interned.this
  super := grown _ interned.super
  methods m member := (interned.methods m member).mono grown

def Emission.Interned (t : Table) : Emission → Prop
  | .instruction (some i) => ∀ symbol ∈ i.symbols, t.Holds symbol
  | _ => True

theorem Code.symbols_integerInstruction (value : Int32) :
    (integerInstruction value).symbols =
      if -32768 ≤ value.toInt ∧ value.toInt ≤ 32767 then [] else [some (.integer value)] := by
  have small : ∀ pair ∈ smallIntegers, -32768 ≤ pair.1 ∧ pair.1 ≤ 32767 := by decide
  rw [integerInstruction]
  split
  · rename_i op found
    obtain ⟨front, back, split, -⟩ := List.lookup_eq_some_iff.mp found
    have member : (value.toInt, op) ∈ smallIntegers := by
      rw [split]
      exact List.mem_append_right front List.mem_cons_self
    rw [if_pos (small _ member)]
    rfl
  · by_cases byte : -128 ≤ value.toInt ∧ value.toInt ≤ 127
    · have short : -32768 ≤ value.toInt ∧ value.toInt ≤ 32767 := by omega
      rw [if_pos byte, if_pos short]
      rfl
    · rw [if_neg byte]
      split_ifs
      · rfl
      · rfl

namespace MethodBuilder

variable {t : Table} {b : MethodBuilder}

private theorem Interned.mono {t' : Table} (interned : b.Interned t) (grown : t.Extends t') :
    b.Interned t' :=
  fun i given symbol used => (interned i given symbol used).mono grown

def Emitted.table (t : Table) (e : Emitted) : Table := e.symbol.elim t t.refer

/-- An emission refers to UTF-8 only, and its builder to nothing that is not interned by it. -/
structure Emitted.Sound (t : Table) (e : Emitted) : Prop where
  texts_valid : ∀ s, e.symbol = some s → s.TextsValid
  interned : e.builder.Interned (e.table t)

private theorem add_interned (interned : b.Interned t) {i : Instruction}
    (held : ∀ symbol ∈ i.symbols, t.Holds symbol) : (b.add i).builder.Interned t := by
  rw [add]
  split
  · exact interned
  · intro j given
    rw [Trail.toList_push] at given
    rcases List.mem_append.mp given with given | given
    · exact interned j given
    · cases List.mem_singleton.mp given
      exact held
  · exact interned

theorem symbol_add (b : MethodBuilder) (i : Instruction) : (b.add i).symbol = none := by
  rw [add]
  split <;> rfl

private theorem sound_of_symbol_eq_none {e : Emitted} (missing : e.symbol = none)
    (interned : e.builder.Interned t) : e.Sound t := by
  refine ⟨fun s given => ?_, ?_⟩
  · rw [missing] at given
    cases given
  · rw [Emitted.table, missing]
    exact interned

private theorem sound_add (interned : b.Interned t) {i : Instruction}
    (held : ∀ symbol ∈ i.symbols, t.Holds symbol) : (b.add i).Sound t :=
  sound_of_symbol_eq_none (symbol_add b i) (add_interned interned held)

private theorem sound_fail (interned : b.Interned t) (c : Cause) :
    Emitted.Sound t { builder := b.fail c } := sound_of_symbol_eq_none rfl interned

private theorem sound_addConstant (s : Symbol) (interned : b.Interned t) (texts : s.TextsValid)
    {i : Instruction} (only : ∀ symbol ∈ i.symbols, symbol = some s) :
    Emitted.Sound t { b.add i with symbol := some s } := by
  refine ⟨fun r given => ?_, ?_⟩
  · cases given
    exact texts
  · refine add_interned (interned.mono (t.extends_refer s)) fun symbol used => ?_
    exact ⟨s, only symbol used, t.contains_refer_self s⟩

private theorem sound_withTexts (interned : b.Interned t) (what : Text) {texts : List Text}
    {go : Emitted} (proceed : (∀ text ∈ texts, Utf8.isValid text = true) → go.Sound t) :
    (b.withTexts what texts go).Sound t := by
  rw [withTexts]
  split
  · rw [rejectText]
    split_ifs
    · exact sound_of_symbol_eq_none rfl interned
    · exact sound_fail interned _
  · rename_i clean
    apply proceed
    intro text member
    exact valid_of_invalidText?_eq_none (List.findSome?_eq_none_iff.mp clean text member)

private theorem sound_emit (interned : b.Interned t) {e : Emission} (given : e.Interned t) :
    (b.emit e).Sound t := by
  cases e with
  | instruction i =>
    cases i with
    | none => exact sound_fail interned _
    | some i => exact sound_add interned given
  | parameter name =>
    rw [emit]
    split_ifs
    · exact sound_fail interned _
    · refine sound_of_symbol_eq_none rfl ?_
      intro i
      rw [instructions_slotFor]
      exact interned i
  | localVariable op name =>
    have kept : (b.slotFor name).1.Interned t := by
      intro i
      rw [instructions_slotFor]
      exact interned i
    exact sound_add kept fun _ used => by cases used
  | loadString text =>
    refine sound_withTexts interned _ fun valid => ?_
    exact sound_addConstant (.string text) interned valid fun symbol used =>
      List.mem_singleton.mp used
  | loadInteger value =>
    rw [emit]
    split_ifs
    · exact sound_fail interned _
    · dsimp only
      have symbols := Code.symbols_integerInstruction (Int32.ofInt value)
      split_ifs at symbols
      · rw [symbols]
        exact sound_of_symbol_eq_none rfl (add_interned interned (by simp [symbols]))
      · rw [symbols]
        refine sound_addConstant (.integer (Int32.ofInt value)) interned ?_ (by simp [symbols])
        intro text member
        cases member
  | field op owner name descriptor =>
    refine sound_withTexts interned _ fun valid => ?_
    exact sound_addConstant (.fieldRef owner name descriptor) interned valid fun symbol used =>
      List.mem_singleton.mp used
  | method op owner name descriptor =>
    refine sound_withTexts interned _ fun valid => ?_
    exact sound_addConstant (.methodRef owner name descriptor) interned valid fun symbol used =>
      List.mem_singleton.mp used
  | bare op => exact sound_add interned fun _ used => by cases used

end MethodBuilder

def Call.Asked (earlier : List Call) (symbol : Option Symbol) : Prop :=
  ∃ s, symbol = some s ∧ .refer s ∈ earlier

instance (earlier : List Call) : (symbol : Option Symbol) → Decidable (Call.Asked earlier symbol)
  | none => isFalse fun ⟨_, equal, _⟩ => nomatch equal
  | some s => decidable_of_iff (.refer s ∈ earlier) (by simp [Call.Asked])

/-- A call that keeps to what was called before: the table is given UTF-8, and an instruction that
is emitted as it is refers to symbols that the table was asked for. -/
def Call.Admissible (earlier : List Call) : Call → Prop
  | .refer s => s.TextsValid
  | .emit _ (.instruction (some i)) => ∀ symbol ∈ i.symbols, Call.Asked earlier symbol
  | _ => True

instance (earlier : List Call) : (call : Call) → Decidable (call.Admissible earlier)
  | .refer s => inferInstanceAs (Decidable s.TextsValid)
  | .emit _ (.instruction (some i)) =>
    inferInstanceAs (Decidable (∀ symbol ∈ i.symbols, Call.Asked earlier symbol))
  | .emit _ (.instruction none) | .emit _ (.parameter _) | .emit _ (.localVariable _ _)
  | .emit _ (.loadString _) | .emit _ (.loadInteger _) | .emit _ (.field _ _ _ _)
  | .emit _ (.method _ _ _ _) | .emit _ (.bare _) | .beginClass _ _ _ | .beginMethod _ _ _ _
  | .endMethod _ | .endClass _ => isTrue trivial

abbrev Admissible (calls : List Call) : Prop := Along Call.Admissible calls

namespace Assembler

/-- Everything that is known or was taken in is interned, with all it refers to, and all texts are
UTF-8. -/
structure Sound (known : Symbol → Prop) (a : Assembler) : Prop where
  known : ∀ s, known s → a.table.contains s = true
  closed : a.table.Closed
  texts_valid : a.table.TextsValid
  methods : ∀ b ∈ a.methods, b.Interned a.table
  classes : ∀ b ∈ a.classes, b.Interned a.table
  finished : ∀ c, a.current = some c → c.Interned a.table

private theorem sound_initial {known : Symbol → Prop} (nothing : ∀ s, ¬ known s) (o : Options) :
    Sound known { options := o } where
  known s asked := absurd asked (nothing s)
  closed s held := by simp at held
  texts_valid text held := by simp at held
  methods b member := by simp at member
  classes b member := by simp at member
  finished c ended := by cases ended

section

variable {known : Symbol → Prop} {a : Assembler}

private theorem table_refer (a : Assembler) (s : Symbol) :
    (a.refer s).table = a.table.refer s := rfl

private theorem Sound.refer (sound : Sound known a) {s : Symbol} (texts : s.TextsValid) :
    Sound known (a.refer s) where
  known r asked := a.table.extends_refer s r (sound.known r asked)
  closed := sound.closed.refer s
  texts_valid := sound.texts_valid.refer texts
  methods b member i given symbol used :=
    (sound.methods b member i given symbol used).mono (a.table.extends_refer s)
  classes b member m given := (sound.classes b member m given).mono (a.table.extends_refer s)
  finished c ended := (sound.finished c ended).mono (a.table.extends_refer s)

private theorem mem_modify {α : Type} {xs : Array α} {i : Nat} {f : α → α} {y : α}
    (member : y ∈ xs.modify i f) : ∃ x ∈ xs, y = x ∨ y = f x := by
  obtain ⟨k, inside, equal⟩ := Array.mem_iff_getElem.mp member
  rw [Array.getElem_modify] at equal
  have inside' : k < xs.size := by simpa using inside
  refine ⟨xs[k], Array.getElem_mem inside', ?_⟩
  split_ifs at equal
  · exact Or.inr equal.symm
  · exact Or.inl equal.symm

private theorem Sound.modifyClass (sound : Sound known a) (c : ClassId)
    {f : ClassBuilder → ClassBuilder} (kept : ∀ b, b.Interned a.table → (f b).Interned a.table) :
    Sound known { a with classes := a.classes.modify c f } := by
  refine { sound with classes := fun b member => ?_ }
  obtain ⟨b', member', rfl | rfl⟩ := mem_modify member
  · exact sound.classes b member'
  · exact kept b' (sound.classes b' member')

private theorem Sound.modifyMethod (sound : Sound known a) (m : MethodId)
    {f : MethodBuilder → MethodBuilder}
    (kept : ∀ b, b.Interned a.table → (f b).Interned a.table) :
    Sound known { a with methods := a.methods.modify m f } := by
  refine { sound with methods := fun b member => ?_ }
  obtain ⟨b', member', rfl | rfl⟩ := mem_modify member
  · exact sound.methods b member'
  · exact kept b' (sound.methods b' member')

private theorem Sound.failClass (sound : Sound known a) (c : ClassId) (f : Failure) :
    Sound known (a.failClass c f) :=
  sound.modifyClass c fun _ interned => interned

private theorem Sound.report (sound : Sound known a) (e : Log.Event) : Sound known (a.report e) :=
  { sound with }

private theorem Sound.setMethod (sound : Sound known a) (m : MethodId) {b : MethodBuilder}
    (interned : b.Interned a.table) :
    Sound known { a with methods := a.methods.setIfInBounds m b } := by
  refine { sound with methods := fun b' member => ?_ }
  rcases Array.mem_or_eq_of_mem_setIfInBounds member with member | rfl
  · exact sound.methods b' member
  · exact interned

private theorem Sound.pushMethod (sound : Sound known a) {b : MethodBuilder}
    (interned : b.Interned a.table) :
    Sound known { a with methods := a.methods.push b } := by
  refine { sound with methods := fun b' member => ?_ }
  rcases Array.mem_push.mp member with member | rfl
  · exact sound.methods b' member
  · exact interned

private theorem Sound.pushClass (sound : Sound known a) {b : ClassBuilder}
    (interned : b.Interned a.table) : Sound known { a with classes := a.classes.push b } := by
  refine { sound with classes := fun b' member => ?_ }
  rcases Array.mem_push.mp member with member | rfl
  · exact sound.classes b' member
  · exact interned

private theorem Sound.addMethod (sound : Sound known a) (c : ClassId) {m : Method}
    (interned : m.Interned a.table) : Sound known (a.addMethod c m) := by
  refine Sound.report (sound.modifyClass c fun b kept => ?_) _
  intro n given
  rw [Trail.toList_push] at given
  rcases List.mem_append.mp given with given | given
  · exact kept n given
  · cases List.mem_singleton.mp given
    exact interned

private theorem Sound.beginClass (sound : Sound known a) (name : Text) (access : AccessFlags)
    (supers : List Text) : Sound known (a.beginClass name access supers).2 :=
  sound.pushClass fun _ given => by cases given

private theorem Sound.beginMethod (sound : Sound known a) (c : ClassId) (access : AccessFlags)
    (name descriptor : Text) : Sound known (a.beginMethod c access name descriptor).2 := by
  rw [Assembler.beginMethod]
  have pushed := fun stage => sound.pushMethod
    (b := { owner := c, access, name, descriptor, stage }) fun _ given => by cases given
  split
  · exact (pushed _).failClass c _
  · exact (pushed _).modifyClass c fun _ interned => interned

private theorem Sound.emit (sound : Sound known a) (m : MethodId) {e : Emission}
    (given : e.Interned a.table) : Sound known (a.emit m e) := by
  cases found : a.methods[m]? with
  | none =>
    rw [emit_of_getElem?_eq_none found]
    exact sound
  | some b =>
    have kept := MethodBuilder.sound_emit (sound.methods b (Array.mem_of_getElem? found)) given
    -- The symbol is interned behind the instruction; the order does not show in the state.
    have set : Sound known { a with
        methods := a.methods.setIfInBounds m (b.emit e).builder
        table := (b.emit e).symbol.elim a.table a.table.refer } := by
      have interned := kept.interned
      rw [MethodBuilder.Emitted.table] at interned
      cases given : (b.emit e).symbol with
      | none =>
        rw [given] at interned
        exact sound.setMethod m interned
      | some s =>
        rw [given] at interned
        exact (sound.refer (kept.texts_valid s given)).setMethod m interned
    rw [emit_of_getElem?_eq_some found,
      ← setIfInBounds_eq_modify found fun b => (b.emit e).builder]
    cases (b.emit e).classProblem with
    | none => exact set
    | some f => exact set.failClass b.owner f

private theorem Sound.referMethod (sound : Sound known a) {b : MethodBuilder}
    (name : Utf8.isValid b.name = true) (descriptor : Utf8.isValid b.descriptor = true) :
    Sound known { a with table := Assembler.referMethod a.table b } := by
  have code : Symbol.TextsValid (.utf8 ClassFile.codeAttribute) := by decide
  have named : Symbol.TextsValid (.utf8 b.name) := Symbol.textsValid_of_texts_eq rfl name
  have described : Symbol.TextsValid (.utf8 b.descriptor) :=
    Symbol.textsValid_of_texts_eq rfl descriptor
  rw [Assembler.referMethod]
  split_ifs
  · exact (sound.refer named).refer described
  · exact ((sound.refer code).refer named).refer described

private theorem referMethod_interned {t : Table} {b : MethodBuilder} (interned : b.Interned t)
    (limits : Limits) : Method.Interned (referMethod t b) (b.made limits) := by
  rw [referMethod]
  generalize front : (if b.instructions.isEmpty then t
    else t.refer (.utf8 ClassFile.codeAttribute)) = t₁
  have grown : t.Extends t₁ := by
    rw [← front]
    split_ifs
    · exact fun _ held => held
    · exact t.extends_refer _
  have named := t₁.extends_refer (.utf8 b.name)
  have described := (t₁.refer (.utf8 b.name)).extends_refer (.utf8 b.descriptor)
  refine ⟨described _ (t₁.contains_refer_self _), Table.contains_refer_self _ _, ?_, ?_⟩
  · intro hasCode
    have nonempty : ¬ b.instructions.isEmpty = true := by
      simpa [MethodBuilder.made, Method.hasCode, Trail.toList, Trail.isEmpty] using hasCode
    rw [if_neg nonempty] at front
    rw [← front] at named described ⊢
    exact described _ (named _ (t.contains_refer_self _))
  · intro symbol used
    obtain ⟨i, given, used⟩ := List.mem_flatMap.mp used
    exact (interned i given symbol used).mono ((grown.trans named).trans described)

private theorem Sound.markClosed (sound : Sound known a) (m : MethodId) (c : ClassId) :
    Sound known (a.markClosed m c) := by
  have closed := sound.modifyMethod m (f := fun b => { b with stage := .closed })
    fun _ interned => interned
  exact closed.modifyClass c (f := fun b => { b with openMethod := none })
    fun _ interned => interned

private theorem Sound.endLiveMethod (sound : Sound known a) (m : MethodId) {b : MethodBuilder}
    (member : b ∈ a.methods) : Sound known (a.endLiveMethod m b).2 := by
  have marked := sound.markClosed m b.owner
  rw [Assembler.endLiveMethod]
  dsimp only
  split
  · exact marked.failClass _ _
  · rename_i limits closed
    obtain ⟨clean, -⟩ := closeMethod_eq_ok closed
    obtain ⟨name, descriptor⟩ := b.texts_valid_of_allProblems clean
    have referred := marked.referMethod name descriptor
    split
    · exact referred.failClass _ _
    · rename_i method made
      refine referred.addMethod _ ?_
      rw [Method.eq_of_make_eq_ok made]
      exact referMethod_interned (sound.methods b member) limits

private theorem Sound.endMethod (sound : Sound known a) (m : MethodId) :
    Sound known (a.endMethod m).2 := by
  rcases endMethod_cases a m with ⟨-, same⟩ | ⟨b, found, live⟩
  · rw [same]
    exact sound
  · rw [endMethod_of_live found live]
    exact sound.endLiveMethod m (Array.mem_of_getElem? found)

private theorem table_markEnded (a : Assembler) (c : ClassId) (b : ClassBuilder) :
    (a.markEnded c b).table = a.table := by
  rw [markEnded_eq]

private theorem Sound.markEnded (sound : Sound known a) (c : ClassId) (b : ClassBuilder) :
    Sound known (a.markEnded c b) := by
  have ended := sound.modifyClass c (f := fun b => { b with ended := true, openMethod := none })
    fun _ interned => interned
  rw [Assembler.markEnded]
  dsimp only
  split
  · exact ended.modifyMethod _ (f := fun b => { b with stage := .closed })
      fun _ interned => interned
  · exact ended

private theorem Sound.setFinished (sound : Sound known a) (c : ClassId) {decl : ClassDecl}
    (interned : decl.Interned a.table) :
    Sound known (if c = 0 then { a with finished := some (c, decl) } else a) := by
  split_ifs
  · refine { sound with finished := fun d ended => ?_ }
    cases Option.some.inj ended
    exact interned
  · exact sound

private theorem interned_of_make {t : Table} {b : ClassBuilder} (interned : b.Interned t)
    {decl : ClassDecl}
    (made : ClassDecl.make b.access b.name b.superName (b.methods.toList.map some) = .ok decl) :
    decl.Interned ((t.refer (.classRef b.name)).refer (.classRef b.superName)) := by
  obtain ⟨-, named, supered, methods⟩ := ClassDecl.eq_of_make_eq_ok made
  have grown := t.extends_refer (.classRef b.name)
  have grown' := (t.refer (.classRef b.name)).extends_refer (.classRef b.superName)
  refine ⟨?_, ?_, ?_⟩
  · rw [named]
    exact grown' _ (Table.contains_refer_self _ _)
  · rw [supered]
    exact Table.contains_refer_self _ _
  · rw [methods]
    exact fun m member => (interned m member).mono (grown.trans grown')

private theorem Sound.finishClass (sound : Sound known a) (c : ClassId) {b : ClassBuilder}
    (interned : b.Interned a.table) (name : Utf8.isValid b.name = true)
    (super : Utf8.isValid b.superName = true) : Sound known (a.finishClass c b).2 := by
  have named : Symbol.TextsValid (.classRef b.name) := Symbol.textsValid_of_texts_eq rfl name
  have supered : Symbol.TextsValid (.classRef b.superName) :=
    Symbol.textsValid_of_texts_eq rfl super
  have referred := (sound.refer named).refer supered
  rw [Assembler.finishClass]
  dsimp only
  split
  · exact referred
  · rename_i decl made
    have whole := interned_of_make interned made
    rw [← table_refer, ← table_refer] at whole
    exact (referred.setFinished c whole).report _

private theorem Sound.endClass (sound : Sound known a) (c : ClassId) :
    Sound known (a.endClass c).2 := by
  rw [Assembler.endClass]
  split
  · exact sound
  · rename_i b found
    split_ifs
    · exact sound
    · have marked := sound.markEnded c b
      dsimp only
      split
      · rename_i clean
        obtain ⟨-, -, name, super⟩ := ClassBuilder.of_allProblems_eq_nil clean
        refine marked.finishClass c ?_ name super
        rw [table_markEnded]
        exact sound.classes b (Array.mem_of_getElem? found)
      · exact marked

private theorem Sound.step (sound : Sound known a) {earlier : List Call}
    (asked : ∀ s, Call.refer s ∈ earlier → known s) {call : Call}
    (admissible : call.Admissible earlier) : Sound known (a.step call) := by
  cases call with
  | beginClass name access supers => exact sound.beginClass name access supers
  | beginMethod c access name descriptor => exact sound.beginMethod c access name descriptor
  | emit m e =>
    refine sound.emit m ?_
    cases e with
    | instruction i =>
      cases i with
      | none => trivial
      | some i =>
        intro symbol used
        obtain ⟨s, equal, member⟩ := admissible symbol used
        exact ⟨s, equal, sound.known s (asked s member)⟩
    | _ => trivial
  | endMethod m => exact sound.endMethod m
  | endClass c => exact sound.endClass c
  | refer s => exact sound.refer admissible

/-- Every admissible history leaves a sound assembler, with what was asked for interned. -/
theorem sound_run (o : Options) {calls : List Call} (admissible : Admissible calls) :
    Sound (fun s => .refer s ∈ calls) (run { options := o } calls) := by
  induction calls using List.reverseRecOn with
  | nil => exact sound_initial (fun _ => List.not_mem_nil) o
  | append_singleton calls call ih =>
    obtain ⟨before, now⟩ := along_append_singleton.mp admissible
    have stepped := (ih before).step (fun s member => member) now
    rw [run_append_singleton]
    refine { stepped with known := ?_ }
    intro s asked
    rcases List.mem_append.mp asked with asked | asked
    · exact stepped.known s asked
    · cases List.mem_singleton.mp asked
      exact Table.contains_refer_self _ s

theorem Sound.consistent (sound : Sound known a) {c : ClassDecl} (ended : a.current = some c) :
    ClassFile.Consistent a.table c where
  closed := sound.closed
  texts_valid := sound.texts_valid
  this_interned := (sound.finished c ended).this
  super_interned := (sound.finished c ended).super
  methods_interned := (sound.finished c ended).methods

end

theorem write_of_current {a : Assembler} {c : ClassDecl} (ended : a.current = some c) :
    a.write.1 = ClassFile.write a.options.version a.table (some c) := by
  unfold write serialize
  rw [ended]
  cases written : ClassFile.write a.options.version a.table (some c) with
  | ok bytes => simp only [written]
  | error f => simp only [written]

/-- The pool, a text or the code of a method outgrows its field. -/
def Oversized (t : Table) (c : ClassDecl) : Prop :=
  65534 < t.size ∨
    (∃ text, t.contains (.utf8 text) = true ∧ 65535 < (ModifiedUtf8.encode text).length) ∨
    ∃ m ∈ c.methods, ∃ n, m.CodeLength t n ∧ 2 ^ 32 - 1 < n + 12

private theorem not_fits_iff_oversized {t : Table} {c : ClassDecl} :
    ¬ ClassFile.Fits t c ↔ Oversized t c := by
  constructor
  · intro large
    by_contra small
    simp only [Oversized, not_or, not_exists, not_and, Nat.not_lt] at small
    exact large ⟨small.1, small.2.1, small.2.2⟩
  · rintro (large | ⟨text, interned, large⟩ | ⟨m, member, n, length, large⟩) fits
    · have size := fits.size_le
      omega
    · have short := fits.texts_fit text interned
      omega
    · have short := fits.code_fits m member n length
      omega

/-- After any admissible history in which a class was ended, that class can be written unless it is
oversized, and then writing it overflows. No inconsistency is ever found. -/
theorem write_of_admissible_history (o : Options) {calls : List Call}
    (admissible : Admissible calls) {c : ClassDecl}
    (ended : (run { options := o } calls).current = some c) :
    ((∃ bytes, (run { options := o } calls).write.1 = .ok bytes) ↔
      ¬ Oversized (run { options := o } calls).table c) ∧
    ((∃ f, (run { options := o } calls).write.1 = .error f ∧ f.kind = .overflow) ↔
      Oversized (run { options := o } calls).table c) ∧
    ∀ f, (run { options := o } calls).write.1 = .error f →
      f.kind = .overflow ∧ f.isKind .invariant = false ∧ f.isKind .precondition = false := by
  have sound := sound_run o admissible
  generalize run { options := o } calls = a at ended sound ⊢
  have verdict := ClassFile.write_verdict a.options.version a.table c
  have consistent := sound.consistent ended
  rw [write_of_current ended, ← not_fits_iff_oversized, not_not]
  generalize ClassFile.write a.options.version a.table (some c) = result at verdict ⊢
  cases verdict with
  | done bytes _ small =>
    refine ⟨⟨fun _ => small, fun _ => ⟨bytes, rfl⟩⟩, ⟨?_, fun large => absurd small large⟩, ?_⟩
    · rintro ⟨f, equal, -⟩
      cases equal
    · intro f equal
      cases equal
  | oversized operation cause large =>
    refine ⟨⟨?_, fun small => absurd small large⟩, ⟨fun _ => large, fun _ => ⟨_, rfl, rfl⟩⟩, ?_⟩
    · rintro ⟨bytes, equal⟩
      cases equal
    · intro f equal
      cases equal
      exact ⟨rfl, rfl, rfl⟩
  | inconsistent operation cause broken => exact absurd consistent broken

/-- A history with a method that is ended twice, and with a string that is asked for before it is
emitted. -/
def greetingHistory : List Call :=
  [.refer (.string "hé"), .beginClass "Greeting" defaultClassAccess [],
    .beginMethod 0 defaultMethodAccess "main" "()V",
    .emit 0 (.instruction (some (.constant .ldcW (some (.string "hé"))))), .emit 0 (.bare .pop),
    .emit 0 (.bare .vreturn), .endMethod 0, .endMethod 0, .endClass 0]

theorem write_of_greetingHistory :
    Admissible greetingHistory ∧ ∃ c, (run {} greetingHistory).current = some c ∧
      ∀ f, (run {} greetingHistory).write.1 = .error f → f.kind = .overflow := by
  have admissible : Admissible greetingHistory := by decide
  have ended : ∃ c, (run {} greetingHistory).current = some c := ⟨_, rfl⟩
  obtain ⟨c, ended⟩ := ended
  refine ⟨admissible, c, ended, fun f failed => ?_⟩
  exact ((write_of_admissible_history {} admissible ended).2.2 f failed).1

end Assembler

end JvmAssembler
