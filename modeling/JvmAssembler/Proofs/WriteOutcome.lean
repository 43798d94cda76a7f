import JvmAssembler.Proofs.InstructionBytes
import JvmAssembler.Proofs.PoolResolution

/-!
# When a class can be written

A class is written exactly when everything it refers to is interned and everything fits its field.
Otherwise writing names a broken invariant or an overflow, and gives no bytes.
-/

set_option autoImplicit false
set_option relaxedAutoImplicit false

namespace JvmAssembler

def Table.Holds (t : Table) (symbol : Option Symbol) : Prop :=
  ∃ s, symbol = some s ∧ t.contains s = true

theorem Table.resolve_verdict (t : Table) : Verdict t.Closed (t.size ≤ 65534) t.resolve := by
  rw [resolve]
  split_ifs with large
  · exact .oversized _ _ (Nat.not_le.mpr large)
  · cases leaves : t.dangling? with
    | some pair =>
      refine .inconsistent _ _ fun closed => ?_
      rw [dangling?_eq_none_iff.mpr closed] at leaves
      cases leaves
    | none => exact .done _ (dangling?_eq_none_iff.mp leaves) (Nat.le_of_not_lt large)

section Resolved

variable {t : Table} {x : PoolIndex}

private theorem PoolIndex.lookup_verdict (resolved : t.resolve = .ok x) (s : Symbol) :
    Verdict (t.contains s = true) True (x.lookup s) := by
  by_cases member : t.contains s = true
  · rw [Table.lookup_of_contains resolved member]
    exact .done _ member trivial
  · rw [Table.lookup_of_not_contains resolved member]
    exact .inconsistent _ _ member

private theorem resolveConstant_verdict (resolved : t.resolve = .ok x) (op : Opcode)
    (symbol : Option Symbol) :
    Verdict (t.Holds symbol) True (Instruction.resolveConstant x.lookup op symbol) := by
  cases symbol with
  | none =>
    refine .inconsistent _ _ ?_
    rintro ⟨s, missing, -⟩
    cases missing
  | some s =>
    have found := PoolIndex.lookup_verdict resolved s
    refine (found.bind_ok fun index => ?_).congr (by simp [Table.Holds]) (by simp)
    -- The index is found, and each choice of an opcode for it succeeds.
    split
    · split_ifs
      · exact ⟨_, rfl⟩
      · exact ⟨_, rfl⟩
    · exact ⟨_, rfl⟩

private theorem Instruction.encode_verdict (resolved : t.resolve = .ok x) (i : Instruction) :
    Verdict (∀ symbol ∈ i.symbols, t.Holds symbol) True (i.encode x.lookup) := by
  cases i with
  | bare op => exact .done _ (by simp [symbols]) trivial
  | byte op value => exact .done _ (by simp [symbols]) trivial
  | short op value => exact .done _ (by simp [symbols]) trivial
  | slot op index => exact .done _ (by simp [symbols]) trivial
  | constant op symbol =>
    have chosen := resolveConstant_verdict resolved op symbol
    have total : ∀ pair : Opcode × UInt16, ∃ bytes,
        (if pair.1 ≠ op.fullWidth then pure [pair.1.byte, pair.2.toUInt8]
          else pure (pair.1.byte :: BigEndian.u2 pair.2) : Except Failure Bytes) = .ok bytes := by
      intro pair
      split_ifs
      · exact ⟨_, rfl⟩
      · exact ⟨_, rfl⟩
    exact (chosen.bind_ok total).congr (by simp [symbols]) (by simp)
  | constantPair op first second =>
    cases first with
    | none =>
      refine .inconsistent _ _ ?_
      intro all
      obtain ⟨s, missing, -⟩ := all none (by simp [symbols])
      cases missing
    | some a =>
      cases second with
      | none =>
        refine .inconsistent _ _ ?_
        intro all
        obtain ⟨s, missing, -⟩ := all none (by simp [symbols])
        cases missing
      | some b =>
        have both := (PoolIndex.lookup_verdict resolved a).bind
          (k := fun i => x.lookup b >>= fun j =>
            pure (op.byte :: (BigEndian.u2 i ++ BigEndian.u2 j)))
          fun i _ => (PoolIndex.lookup_verdict resolved b).bind fun j _ => Verdict.pure _
        exact both.congr (by simp [symbols, Table.Holds]) (by simp)

private theorem Code.encode_verdict (resolved : t.resolve = .ok x)
    (instructions : List Instruction) :
    Verdict (∀ symbol ∈ instructions.flatMap Instruction.symbols, t.Holds symbol) True
      (Code.encode x.lookup instructions) := by
  have each := Verdict.mapM instructions fun i _ => Instruction.encode_verdict resolved i
  rw [Code.encode_eq_flatten]
  refine (each.map List.flatten).congr ?_ (by simp)
  simp only [List.mem_flatMap, forall_exists_index, and_imp]
  exact ⟨fun h s i hi hs => h i hi s hs, fun h i hi s hs => h s i hi hs⟩

/-- What a pool entry needs to be written: a text is UTF-8, references are interned. -/
private def EntryConsistent (t : Table) (s : Symbol) : Prop :=
  (∀ text, s = .utf8 text → Utf8.isValid text = true) ∧ ∀ r ∈ s.refs, t.contains r = true

private def EntryFits (s : Symbol) : Prop :=
  ∀ text, s = .utf8 text → (ModifiedUtf8.encode text).length ≤ 65535

private theorem referenceFields_verdict (resolved : t.resolve = .ok x) (refs : List Symbol) :
    Verdict (∀ r ∈ refs, t.contains r = true) True
      (refs.mapM fun r => (x.lookup r).map fun i => ClassFile.u2 "pool reference" i.toNat) := by
  have each := Verdict.mapM refs fun r _ =>
    (PoolIndex.lookup_verdict resolved r).map fun i => ClassFile.u2 "pool reference" i.toNat
  exact each.congr Iff.rfl (by simp)

private theorem bodyFields_verdict (resolved : t.resolve = .ok x) (s : Symbol) :
    Verdict (EntryConsistent t s) True (ClassFile.bodyFields x s) := by
  cases s with
  | utf8 text =>
    rw [ClassFile.bodyFields]
    split_ifs with valid
    · exact .done _ ⟨fun _ same => by cases same; exact valid, by simp [Symbol.refs]⟩ trivial
    · exact .inconsistent _ _ fun consistent => valid (consistent.1 text rfl)
  | integer value => exact .done _ ⟨by simp, by simp [Symbol.refs]⟩ trivial
  | classRef name =>
    exact (referenceFields_verdict resolved _).congr (by simp [EntryConsistent]) Iff.rfl
  | string text =>
    exact (referenceFields_verdict resolved _).congr (by simp [EntryConsistent]) Iff.rfl
  | nameAndType name descriptor =>
    exact (referenceFields_verdict resolved _).congr (by simp [EntryConsistent]) Iff.rfl
  | fieldRef owner name descriptor =>
    exact (referenceFields_verdict resolved _).congr (by simp [EntryConsistent]) Iff.rfl
  | methodRef owner name descriptor =>
    exact (referenceFields_verdict resolved _).congr (by simp [EntryConsistent]) Iff.rfl

theorem ClassFile.referenceField_eq_ok {r : Symbol} {f : Field}
    (given : ((x.lookup r).map fun i => ClassFile.u2 "pool reference" i.toNat) = .ok f) :
    ∃ i, x.lookup r = .ok i ∧ f = ClassFile.u2 "pool reference" i.toNat := by
  cases found : x.lookup r with
  | error failure =>
    rw [found] at given
    cases given
  | ok i =>
    rw [found] at given
    cases given
    exact ⟨i, rfl, rfl⟩

private theorem referenceFields_fit {refs : List Symbol} {fields : List Field}
    (given : (refs.mapM fun r => (x.lookup r).map fun i =>
      ClassFile.u2 "pool reference" i.toNat) = .ok fields) :
    ∀ f ∈ fields, f.fits = true := by
  have pointwise := forall₂_of_mapM_eq_ok given
  clear given
  induction pointwise with
  | nil => simp
  | cons head _ ih =>
    intro f member
    rcases List.mem_cons.mp member with rfl | member
    · obtain ⟨i, -, rfl⟩ := ClassFile.referenceField_eq_ok head
      rw [Field.fits_u2]
      have bound := i.toNat_lt
      omega
    · exact ih f member

private theorem bodyFields_fit_iff {s : Symbol} {fields : List Field}
    (given : ClassFile.bodyFields x s = .ok fields) :
    (∀ f ∈ fields, f.fits = true) ↔ EntryFits s := by
  cases s with
  | utf8 text =>
    rw [ClassFile.bodyFields] at given
    split_ifs at given with valid
    cases given
    simp [EntryFits]
  | integer value =>
    cases given
    have bound := value.toUInt32.toNat_lt
    simp only [List.mem_singleton, forall_eq, Field.fits_u4, EntryFits, reduceCtorEq,
      false_implies, implies_true, iff_true]
    omega
  | classRef name => exact ⟨fun _ => by simp [EntryFits], fun _ => referenceFields_fit given⟩
  | string text => exact ⟨fun _ => by simp [EntryFits], fun _ => referenceFields_fit given⟩
  | nameAndType name descriptor =>
    exact ⟨fun _ => by simp [EntryFits], fun _ => referenceFields_fit given⟩
  | fieldRef owner name descriptor =>
    exact ⟨fun _ => by simp [EntryFits], fun _ => referenceFields_fit given⟩
  | methodRef owner name descriptor =>
    exact ⟨fun _ => by simp [EntryFits], fun _ => referenceFields_fit given⟩

private theorem entryBytes_verdict (resolved : t.resolve = .ok x) (s : Symbol) :
    Verdict (EntryConsistent t s) (EntryFits s) (ClassFile.entryBytes x s) := by
  have tagFits : (ClassFile.u1 "tag" s.tag.byte.toNat).fits = true := by
    have bound := s.tag.byte.toNat_lt
    rw [Field.fits_u1]
    omega
  have rest : ∀ body, ClassFile.bodyFields x s = .ok body → Verdict True (EntryFits s)
      (Field.encodeAll (ClassFile.u1 "tag" s.tag.byte.toNat :: body)) := by
    intro body given
    refine (Field.encodeAll_verdict _).congr Iff.rfl ?_
    rw [List.forall_mem_cons, bodyFields_fit_iff given]
    exact and_iff_right tagFits
  exact ((bodyFields_verdict resolved s).bind rest).congr (by simp) (by simp)

def Table.TextsValid (t : Table) : Prop :=
  ∀ text, t.contains (.utf8 text) = true → Utf8.isValid text = true

def Table.TextsFit (t : Table) : Prop :=
  ∀ text, t.contains (.utf8 text) = true → (ModifiedUtf8.encode text).length ≤ 65535

private theorem poolBytes_verdict (resolved : t.resolve = .ok x) :
    Verdict (t.Closed ∧ t.TextsValid) t.TextsFit (ClassFile.poolBytes x) := by
  have small : t.size ≤ 65534 := (Table.resolve_eq_ok_iff.mp resolved).1
  have count : Verdict True True
      (Field.encodeAll [ClassFile.u2 "constant pool count" (x.size + 1)]) := by
    refine (Field.encodeAll_verdict _).congr Iff.rfl ?_
    rw [List.forall_mem_singleton, Field.fits_u2, Table.size_of_resolve resolved]
    simp only [iff_true]
    omega
  have entries := Verdict.mapM x.entries.toList fun s _ => entryBytes_verdict resolved s
  have written := count.bind
    (k := fun count => x.entries.toList.mapM (ClassFile.entryBytes x) >>= fun entries =>
      pure (count ++ entries.flatten))
    fun count _ => entries.bind_ok fun entries => ⟨_, rfl⟩
  have member : ∀ s, s ∈ x.entries.toList ↔ t.contains s = true := by
    intro s
    rw [Table.entries_of_resolve resolved, Table.mem_ranked]
  refine written.congr ?_ ?_
  · simp only [true_and, member, EntryConsistent, Table.Closed, Table.TextsValid]
    constructor
    · intro all
      exact ⟨fun s interned => (all s interned).2, fun text interned => (all _ interned).1 text rfl⟩
    · rintro ⟨closed, valid⟩ s interned
      refine ⟨?_, closed s interned⟩
      rintro text rfl
      exact valid text interned
  · simp only [true_and, member, EntryFits, Table.TextsFit]
    constructor
    · intro all text interned
      exact all _ interned text rfl
    · rintro fit s interned text rfl
      exact fit text interned

structure Method.Interned (t : Table) (m : Method) : Prop where
  name : t.contains (.utf8 m.name) = true
  descriptor : t.contains (.utf8 m.descriptor) = true
  code : m.hasCode = true → t.contains (.utf8 ClassFile.codeAttribute) = true
  symbols : ∀ symbol ∈ m.symbols, t.Holds symbol

def Method.CodeLength (t : Table) (m : Method) (n : Nat) : Prop :=
  ∃ x, t.resolve = .ok x ∧ Code.encodedLength x.lookup m.instructions = .ok n

def Method.CodeFits (t : Table) (m : Method) : Prop :=
  ∀ n, m.CodeLength t n → n + 12 ≤ 2 ^ 32 - 1

private theorem codeFits_iff (resolved : t.resolve = .ok x) {m : Method} {code : Bytes}
    (encoded : Code.encode x.lookup m.instructions = .ok code) :
    m.CodeFits t ↔ code.length + 12 ≤ 4294967295 := by
  have length := Code.encodedLength_of_encode encoded
  constructor
  · intro fits
    exact fits code.length ⟨x, resolved, length⟩
  · rintro small n ⟨y, resolved', given⟩
    rw [resolved] at resolved'
    cases resolved'
    rw [length] at given
    cases given
    exact small

private theorem codeFields_fit_iff (name : UInt16) (limits : Limits) (code : Bytes) :
    (∀ f ∈ ClassFile.codeFields name limits code, f.fits = true) ↔
      code.length + 12 ≤ 4294967295 := by
  have h₁ := name.toNat_lt
  have h₂ := limits.stack.toNat_lt
  have h₃ := limits.locals.toNat_lt
  simp only [ClassFile.codeFields, ClassFile.codeOverhead, List.forall_mem_cons, Field.fits_u2,
    Field.fits_u4, Field.fits_raw, List.not_mem_nil, false_implies, implies_true, and_true,
    true_and]
  omega

private theorem attributeFields_verdict (resolved : t.resolve = .ok x) (m : Method) :
    Verdict ((m.hasCode = true → t.contains (.utf8 ClassFile.codeAttribute) = true) ∧
      ∀ symbol ∈ m.symbols, t.Holds symbol) True (ClassFile.attributeFields x m) := by
  rw [ClassFile.attributeFields]
  by_cases hasCode : m.hasCode = true
  · rw [if_pos hasCode]
    have name := PoolIndex.lookup_verdict resolved (.utf8 ClassFile.codeAttribute)
    have code := Code.encode_verdict resolved m.instructions
    exact (name.bind fun name _ => code.bind_ok fun code => ⟨_, rfl⟩).congr
      (by simp [hasCode, Method.symbols]) (by simp)
  · rw [if_neg hasCode]
    have empty : m.instructions = [] := by simpa [Method.hasCode] using hasCode
    exact .done _ ⟨fun h => absurd h hasCode, by simp [Method.symbols, empty]⟩ trivial

private theorem attributeFields_fit_iff (resolved : t.resolve = .ok x) {m : Method}
    {fields : List Field} (given : ClassFile.attributeFields x m = .ok fields) :
    (∀ f ∈ fields, f.fits = true) ↔ m.CodeFits t := by
  rw [ClassFile.attributeFields] at given
  by_cases hasCode : m.hasCode = true
  · rw [if_pos hasCode] at given
    obtain ⟨name, -, given⟩ := exists_of_bind_eq_ok given
    obtain ⟨bytes, code, given⟩ := exists_of_bind_eq_ok given
    cases given
    rw [codeFits_iff resolved code, List.forall_mem_cons, codeFields_fit_iff]
    exact and_iff_right ((Field.fits_u2 _ _).mpr (by decide))
  · rw [if_neg hasCode] at given
    cases given
    have empty : m.instructions = [] := by simpa [Method.hasCode] using hasCode
    have encoded : Code.encode x.lookup m.instructions = .ok [] := by
      rw [empty]
      rfl
    rw [codeFits_iff resolved encoded]
    simp

private theorem methodBytes_verdict (resolved : t.resolve = .ok x) (m : Method) :
    Verdict (m.Interned t) (m.CodeFits t) (ClassFile.methodBytes x m) := by
  have name := PoolIndex.lookup_verdict resolved (.utf8 m.name)
  have descriptor := PoolIndex.lookup_verdict resolved (.utf8 m.descriptor)
  have attributes := attributeFields_verdict resolved m
  have rest : ∀ (i j : UInt16) (fields : List Field), ClassFile.attributeFields x m = .ok fields →
      Verdict True (m.CodeFits t) (Field.encodeAll
        (ClassFile.u2 "method access flags" m.access.bits.toNat ::
          ClassFile.u2 "method name" i.toNat ::
          ClassFile.u2 "method descriptor" j.toNat :: fields)) := by
    intro i j fields given
    refine (Field.encodeAll_verdict _).congr Iff.rfl ?_
    have h₁ := m.access.bits.toNat_lt
    have h₂ := i.toNat_lt
    have h₃ := j.toNat_lt
    rw [← attributeFields_fit_iff resolved given]
    simp only [List.forall_mem_cons, Field.fits_u2]
    constructor
    · rintro ⟨-, -, -, all⟩
      exact all
    · intro all
      exact ⟨by omega, by omega, by omega, all⟩
  have written := name.bind fun i _ => descriptor.bind fun j _ => attributes.bind (rest i j)
  refine written.congr ?_ (by simp)
  constructor
  · rintro ⟨h₁, h₂, ⟨h₃, h₄⟩, -⟩
    exact ⟨h₁, h₂, h₃, h₄⟩
  · rintro ⟨h₁, h₂, h₃, h₄⟩
    exact ⟨h₁, h₂, ⟨h₃, h₄⟩, trivial⟩

private theorem classBytes_verdict (resolved : t.resolve = .ok x) (c : ClassDecl) :
    Verdict (t.contains (.classRef c.name) = true ∧ t.contains (.classRef c.superName) = true ∧
        ∀ m ∈ c.methods, m.Interned t)
      (∀ m ∈ c.methods, m.CodeFits t) (ClassFile.classBytes x c) := by
  have this := PoolIndex.lookup_verdict resolved (.classRef c.name)
  have super := PoolIndex.lookup_verdict resolved (.classRef c.superName)
  have front : ∀ i j : UInt16, Verdict True True (Field.encodeAll
      [ClassFile.u2 "class access flags" c.access.bits.toNat, ClassFile.u2 "this class" i.toNat,
        ClassFile.u2 "super class" j.toNat, ClassFile.u2 "interfaces count" 0,
        ClassFile.u2 "fields count" 0, ClassFile.u2 "methods count" c.methods.length]) := by
    intro i j
    refine (Field.encodeAll_verdict _).congr Iff.rfl ?_
    have h₁ := c.access.bits.toNat_lt
    have h₂ := i.toNat_lt
    have h₃ := j.toNat_lt
    have h₄ : c.methods.length ≤ 65535 := c.methods_length_le
    simp only [List.forall_mem_cons, Field.fits_u2, List.not_mem_nil, false_implies,
      implies_true, and_true, iff_true]
    omega
  have methods := Verdict.mapM c.methods fun m _ => methodBytes_verdict resolved m
  have back : Verdict True True (Field.encodeAll [ClassFile.u2 "class attributes count" 0]) :=
    (Field.encodeAll_verdict _).congr Iff.rfl (by simp)
  have written := this.bind fun i _ => super.bind fun j _ => (front i j).bind fun front _ =>
    methods.bind fun methods _ => back.bind_ok fun back =>
      ⟨front ++ methods.flatten ++ back, rfl⟩
  exact written.congr (by simp) (by simp)

end Resolved

namespace ClassFile

/-- Everything that a class and its table refer to is interned, and the texts are UTF-8. -/
structure Consistent (t : Table) (c : ClassDecl) : Prop where
  closed : t.Closed
  texts_valid : t.TextsValid
  this_interned : t.contains (.classRef c.name) = true
  super_interned : t.contains (.classRef c.superName) = true
  methods_interned : ∀ m ∈ c.methods, m.Interned t

/-- The pool, its texts and the code of a class fit their fields. -/
structure Fits (t : Table) (c : ClassDecl) : Prop where
  size_le : t.size ≤ 65534
  texts_fit : t.TextsFit
  code_fits : ∀ m ∈ c.methods, m.CodeFits t

/-- Writing a class gives bytes when it is consistent and fits, names an overflow only when it does
not fit, and a broken invariant only when it is inconsistent. -/
theorem write_verdict (v : Version) (t : Table) (c : ClassDecl) :
    Verdict (Consistent t c) (Fits t c) (write v t (some c)) := by
  have header : Verdict True True (Field.encodeAll (headerFields v)) := by
    refine (Field.encodeAll_verdict _).congr Iff.rfl ?_
    have h₁ := v.minor.toNat_lt
    have h₂ := v.major.toNat_lt
    simp only [headerFields, List.forall_mem_cons, Field.fits_u2, Field.fits_u4,
      List.not_mem_nil, false_implies, implies_true, and_true, iff_true]
    exact ⟨by decide, by omega, by omega⟩
  have written := t.resolve_verdict.bind fun x resolved => header.bind fun header _ =>
    (poolBytes_verdict resolved).bind fun pool _ => (classBytes_verdict resolved c).bind_ok
      fun body => ⟨header ++ pool ++ body, rfl⟩
  refine Verdict.congr written ?_ ?_
  · constructor
    · rintro ⟨-, -, ⟨closed, valid⟩, this, super, methods⟩
      exact ⟨closed, valid, this, super, methods⟩
    · rintro ⟨closed, valid, this, super, methods⟩
      exact ⟨closed, trivial, ⟨closed, valid⟩, this, super, methods⟩
  · constructor
    · rintro ⟨size, -, texts, code⟩
      exact ⟨size, texts, code⟩
    · rintro ⟨size, texts, code⟩
      exact ⟨size, trivial, texts, code⟩

structure Serializable (t : Table) (c : ClassDecl) : Prop extends Consistent t c, Fits t c

private theorem serializable_iff {t : Table} {c : ClassDecl} :
    Serializable t c ↔ Consistent t c ∧ Fits t c :=
  ⟨fun h => ⟨h.toConsistent, h.toFits⟩, fun h => { h.1, h.2 with }⟩

/-- A class is written exactly when it is serializable. In every other case there are no bytes, but
a broken invariant or an overflow. -/
theorem write_succeeds_iff_serializable (v : Version) (t : Table) (c : Option ClassDecl) :
    ((∃ bytes, write v t c = .ok bytes) ↔ ∃ d, c = some d ∧ Serializable t d) ∧
    ((∃ f, write v t c = .error f ∧ (f.kind = .invariant ∨ f.kind = .overflow)) ↔
      ¬ ∃ d, c = some d ∧ Serializable t d) := by
  cases c with
  | none =>
    have failed : write v t none = .error (.because .invariant writeOperation .missingClass) := rfl
    rw [failed]
    constructor
    · constructor
      · rintro ⟨bytes, equal⟩
        cases equal
      · rintro ⟨d, equal, -⟩
        cases equal
    · constructor
      · rintro - ⟨d, equal, -⟩
        cases equal
      · intro _
        exact ⟨_, rfl, Or.inl rfl⟩
  | some c =>
    have verdict := write_verdict v t c
    have here : (∃ d, some c = some d ∧ Serializable t d) ↔ Consistent t c ∧ Fits t c := by
      rw [← serializable_iff]
      constructor
      · rintro ⟨d, equal, serializable⟩
        cases equal
        exact serializable
      · intro serializable
        exact ⟨c, rfl, serializable⟩
    rw [here]
    refine ⟨verdict.exists_ok_iff, ?_⟩
    generalize write v t (some c) = result at verdict ⊢
    cases verdict with
    | done bytes sound small =>
      constructor
      · rintro ⟨f, equal, -⟩
        cases equal
      · intro bad
        exact absurd ⟨sound, small⟩ bad
    | oversized operation cause large =>
      exact ⟨fun _ both => large both.2, fun _ => ⟨_, rfl, Or.inr rfl⟩⟩
    | inconsistent operation cause broken =>
      exact ⟨fun _ both => broken both.1, fun _ => ⟨_, rfl, Or.inl rfl⟩⟩

end ClassFile

end JvmAssembler
