import Mathlib.Algebra.Order.BigOperators.Group.List
import Mathlib.Algebra.Order.Group.Nat
import JvmAssembler.Proofs.EndEffects
import JvmAssembler.Proofs.PoolRanking
import JvmAssembler.Proofs.WriteOutcome

/-!
# Pools in the order of references

A symbol that is always interned behind its references is never used more often than one of them,
and none of them was first used after it. Ranking by use therefore puts it behind all of them.
-/

set_option autoImplicit false
set_option relaxedAutoImplicit false

namespace JvmAssembler

namespace Symbol

private theorem count_referenceTree_le (s : Symbol) {q r : Symbol} (referred : r ∈ q.refs) :
    s.referenceTree.count q ≤ s.referenceTree.count r := by
  induction s using reference_induction with
  | step s ih =>
    have below : (s.refs.flatMap referenceTree).count q ≤
        (s.refs.flatMap referenceTree).count r := by
      rw [List.count_flatMap, List.count_flatMap]
      exact List.sum_le_sum fun p member => ih p member
    rw [referenceTree_eq, List.count_append, List.count_append]
    by_cases root : q = s
    · subst root
      have member : r ∈ q.refs.flatMap referenceTree := by
        refine List.mem_flatMap.mpr ⟨r, referred, ?_⟩
        rw [referenceTree_eq]
        exact List.mem_append_right _ List.mem_cons_self
      have once : 0 < (q.refs.flatMap referenceTree).count r := List.count_pos_iff.mpr member
      rw [count_flatMap_refs_self, List.count_singleton_self]
      omega
    · have elsewhere : [s].count q = 0 := List.count_eq_zero.mpr (by simpa using root)
      omega

end Symbol

namespace Table

/-- Every symbol was first used behind each of its references. -/
def Staged (t : Table) : Prop :=
  ∀ s, t.contains s = true → ∀ r ∈ s.refs, [r, s].Sublist t.symbols

private theorem staged_empty : empty.Staged := by
  intro s held
  simp at held

private theorem Staged.intern {t : Table} (staged : t.Staged) {s : Symbol}
    (known : ∀ r ∈ s.refs, t.contains r = true) : (t.intern s).Staged := by
  intro q held r referred
  rw [symbols_intern]
  rw [contains_intern] at held
  by_cases old : t.contains s = true
  · have before : t.contains q = true := held.elim (fun same => same ▸ old) id
    rw [if_pos old]
    exact staged q before r referred
  · rw [if_neg old]
    rcases held with rfl | before
    · have first : [r].Sublist t.symbols :=
        List.singleton_sublist.mpr (contains_iff_mem.mp (known r referred))
      exact first.append (List.Sublist.refl [q])
    · exact (staged q before r referred).trans (List.sublist_append_left _ _)

private theorem Staged.refer {t : Table} (staged : t.Staged) (s : Symbol) : (t.refer s).Staged := by
  induction s using Symbol.reference_induction generalizing t with
  | step s ih =>
    have front : (s.refs.foldl Table.refer t).Staged :=
      List.foldlRecOn s.refs Table.refer staged fun t' staged' r referred => ih r referred staged'
    rw [refer_eq_foldl]
    exact front.intern fun r referred => contains_foldl_refer t referred

/-- Every symbol was first used behind each of its references, and was never used more often. -/
structure Ordered (t : Table) : Prop where
  staged : t.Staged
  count_le : ∀ s, ∀ r ∈ s.refs, t.count s ≤ t.count r

private theorem ordered_empty : empty.Ordered where
  staged := staged_empty
  count_le s r _ := by rw [count_empty, count_empty]

section

variable {t : Table}

private theorem Ordered.refer (ordered : t.Ordered) (s : Symbol) : (t.refer s).Ordered where
  staged := ordered.staged.refer s
  count_le q r referred := by
    have before := ordered.count_le q r referred
    have added := s.count_referenceTree_le referred
    rw [count_refer, count_refer]
    omega

private theorem Ordered.foldl_refer (ordered : t.Ordered) (ss : List Symbol) :
    (ss.foldl Table.refer t).Ordered :=
  List.foldlRecOn ss Table.refer ordered fun _ ordered' s _ => ordered'.refer s

private theorem Ordered.closed (ordered : t.Ordered) : t.Closed := by
  intro s held r referred
  rw [contains_iff_mem]
  exact (ordered.staged s held r referred).subset List.mem_cons_self

/-- The ranking is stable, and a symbol is used no more often than what it refers to. -/
private theorem Ordered.idxOf_ranked_lt (ordered : t.Ordered) {s r : Symbol}
    (held : t.contains s = true) (referred : r ∈ s.refs) : t.ranked.idxOf r < t.ranked.idxOf s :=
  idxOf_ranked_lt_of_sublist (ordered.staged s held r referred) (ordered.count_le s r referred)

/-- Resolving fails for its size alone, and puts every symbol behind all that it refers to. -/
structure ResolvesInOrder (t : Table) : Prop where
  succeeds : t.size ≤ PoolIndex.maxEntries → ∃ x, t.resolve = .ok x
  overflows : ∀ f, t.resolve = .error f → f.kind = .overflow ∧ f.isKind .invariant = false
  lookup_lt : ∀ x, t.resolve = .ok x → ∀ s, t.contains s = true → ∀ r ∈ s.refs,
    ∃ i j, x.lookup r = .ok i ∧ x.lookup s = .ok j ∧ i < j

private theorem Ordered.resolvesInOrder (ordered : t.Ordered) : t.ResolvesInOrder where
  succeeds small := ⟨_, resolve_eq_ok_iff.mpr ⟨small, ordered.closed, rfl⟩⟩
  overflows f failed := by
    have verdict := t.resolve_verdict
    rw [failed] at verdict
    cases verdict with
    | oversized operation cause large => exact ⟨rfl, rfl⟩
    | inconsistent operation cause broken => exact absurd ordered.closed broken
  lookup_lt x resolved s held r referred := by
    have behind := lookup_of_contains resolved held
    have front := lookup_of_contains resolved (ordered.closed s held r referred)
    have ranks := ordered.idxOf_ranked_lt held referred
    obtain ⟨-, indexOfSymbol⟩ := toNat_of_lookup resolved behind
    obtain ⟨-, indexOfReference⟩ := toNat_of_lookup resolved front
    refine ⟨_, _, front, behind, ?_⟩
    rw [UInt16.lt_iff_toNat_lt]
    omega

end

end Table

def TableCall.Chained : TableCall → Prop
  | .refer _ => True
  | .intern (.utf8 _) => True
  | .intern (.integer _) => True
  | .intern _ => False

instance : (call : TableCall) → Decidable call.Chained
  | .refer _ | .intern (.utf8 _) | .intern (.integer _) => isTrue trivial
  | .intern (.classRef _) | .intern (.string _) | .intern (.nameAndType _ _)
  | .intern (.fieldRef _ _ _) | .intern (.methodRef _ _ _) => isFalse id

private theorem TableCall.Chained.apply_eq {call : TableCall} (chained : call.Chained) (t : Table) :
    call.apply t = t.refer call.symbol := by
  cases call with
  | refer s => rfl
  | intern s =>
    cases s with
    | utf8 text => rfl
    | integer value => rfl
    | _ => cases chained

private theorem Table.ordered_answerAll {calls : List TableCall}
    (chained : ∀ call ∈ calls, call.Chained)
    {t : Table} (ordered : t.Ordered) : (t.answerAll calls).2.Ordered := by
  induction calls generalizing t with
  | nil => exact ordered
  | cons call calls ih =>
    have first : (call.apply t).Ordered := by
      rw [(chained call List.mem_cons_self).apply_eq t]
      exact ordered.refer call.symbol
    exact ih (fun later member => chained later (List.mem_cons_of_mem call member)) first

namespace Assembler

private theorem referMethod_eq_foldl (t : Table) (b : MethodBuilder) :
    ∃ ss : List Symbol, referMethod t b = ss.foldl Table.refer t := by
  rw [referMethod]
  split_ifs
  · refine ⟨[.utf8 b.name, .utf8 b.descriptor], ?_⟩
    simp only [List.foldl_cons, List.foldl_nil]
  · refine ⟨[.utf8 ClassFile.codeAttribute, .utf8 b.name, .utf8 b.descriptor], ?_⟩
    simp only [List.foldl_cons, List.foldl_nil]

private theorem exists_table_step (a : Assembler) (call : Call) :
    ∃ ss : List Symbol, (a.step call).table = ss.foldl Table.refer a.table := by
  cases call with
  | beginClass name access supers => exact ⟨[], rfl⟩
  | beginMethod c access name descriptor =>
    refine ⟨[], ?_⟩
    rw [step, beginMethod]
    dsimp only
    split
    · rfl
    · rfl
  | emit m e =>
    cases found : a.methods[m]? with
    | none =>
      rw [step, emit_of_getElem?_eq_none found]
      exact ⟨[], rfl⟩
    | some b =>
      rw [step, emit_of_getElem?_eq_some found]
      cases (b.emit e).symbol with
      | none => exact ⟨[], rfl⟩
      | some s => exact ⟨[s], rfl⟩
  | endMethod m =>
    have outcome := a.methodEnd m
    rw [step]
    generalize a.endMethod m = result at outcome ⊢
    cases outcome with
    | idle => exact ⟨[], rfl⟩
    | refused => exact ⟨[], rfl⟩
    | unmade b =>
      simp only [failClass]
      exact referMethod_eq_foldl a.table b
    | taken b =>
      simp only [addMethod, report]
      exact referMethod_eq_foldl a.table b
  | endClass c =>
    have outcome := a.classEnd c
    rw [step]
    generalize a.endClass c = result at outcome ⊢
    cases outcome with
    | past => exact ⟨[], rfl⟩
    | refused B =>
      refine ⟨[], ?_⟩
      simp only [markEnded_eq, List.foldl_nil]
    | unmade B =>
      refine ⟨[.classRef B.name, .classRef B.superName], ?_⟩
      simp only [table_namedClass, List.foldl_cons, List.foldl_nil]
    | made B found running clean decl =>
      refine ⟨[.classRef B.name, .classRef B.superName], ?_⟩
      simp only [report, table_withClass, List.foldl_cons, List.foldl_nil]
  | refer s => exact ⟨[s], rfl⟩

private theorem ordered_run (o : Options) (calls : List Call) :
    (run { options := o } calls).table.Ordered := by
  induction calls using List.reverseRecOn with
  | nil => exact Table.ordered_empty
  | append_singleton calls call ih =>
    obtain ⟨ss, added⟩ := exists_table_step (run { options := o } calls) call
    rw [run_append_singleton, added]
    exact ih.foldl_refer ss

end Assembler

/-- A table on which symbols were interned behind their references, and besides these only texts and
numbers, resolves in the order of references, and so does the table of an assembler, whatever is
called on it. -/
theorem Table.resolvesInOrder_of_chained {calls : List TableCall}
    (chained : ∀ call ∈ calls, call.Chained) :
    (empty.answerAll calls).2.ResolvesInOrder ∧
      ∀ (o : Options) (history : List Call),
        (Assembler.run { options := o } history).table.ResolvesInOrder :=
  ⟨(ordered_answerAll chained ordered_empty).resolvesInOrder,
    fun o history => (Assembler.ordered_run o history).resolvesInOrder⟩

def sharedTextCalls : List TableCall :=
  [.refer (.fieldRef "A" "A" "A"), .intern (.integer 7), .refer (.methodRef "A" "f" "()V"),
    .intern (.utf8 "A")]

theorem Table.resolvesInOrder_of_sharedTextCalls :
    (∀ call ∈ sharedTextCalls, call.Chained) ∧
      ∃ x i j, (empty.answerAll sharedTextCalls).2.resolve = .ok x ∧
        x.lookup (.classRef "A") = .ok i ∧ x.lookup (.fieldRef "A" "A" "A") = .ok j ∧ i < j := by
  have chained : ∀ call ∈ sharedTextCalls, call.Chained := by decide
  have inOrder := (resolvesInOrder_of_chained chained).1
  rw [answerAll_eq] at inOrder ⊢
  have small : (empty.internAll (sharedTextCalls.flatMap TableCall.interned)).size ≤ 65534 := by
    apply Nat.le_trans (size_internAll_le _ _)
    simp only [sharedTextCalls, List.flatMap_cons, TableCall.interned,
      ← Symbol.uses_eq_referenceTree]
    decide
  obtain ⟨x, resolved⟩ := inOrder.succeeds small
  have held : (empty.internAll (sharedTextCalls.flatMap TableCall.interned)).contains
      (.fieldRef "A" "A" "A") = true := by
    rw [contains_internAll, sharedTextCalls, List.flatMap_cons, TableCall.interned,
      ← Symbol.uses_eq_referenceTree]
    exact Or.inl (List.mem_append_left _ (Symbol.mem_uses_self _))
  obtain ⟨i, j, front, behind, below⟩ := inOrder.lookup_lt x resolved _ held (.classRef "A")
    List.mem_cons_self
  exact ⟨chained, x, i, j, resolved, front, behind, below⟩

end JvmAssembler
