import Mathlib.Data.Finset.Card
import Mathlib.Data.List.Induction
import JvmAssembler.Proofs.Interning

/-!
# Usage counts

A table is a faithful account of the calls on it. It holds the symbols that were interned in the
order of their first use, and counts every use. A symbol that is interned with what it refers to
adds one use for each place in its reference tree, so that a text that serves twice counts twice.
-/

set_option autoImplicit false
set_option relaxedAutoImplicit false

namespace JvmAssembler

namespace Symbol

def depth : Symbol → Nat
  | .utf8 _ => 0
  | .integer _ => 0
  | .classRef _ => 1
  | .string _ => 1
  | .nameAndType _ _ => 1
  | .fieldRef _ _ _ => 2
  | .methodRef _ _ _ => 2

private theorem depth_lt_of_mem_refs {s r : Symbol} (referred : r ∈ s.refs) :
    r.depth < s.depth := by
  cases s <;> simp only [refs, List.mem_cons, List.not_mem_nil, or_false] at referred
  case classRef name => simp [referred, depth]
  case string text => simp [referred, depth]
  case nameAndType name descriptor => rcases referred with rfl | rfl <;> simp [depth]
  case fieldRef owner name descriptor => rcases referred with rfl | rfl <;> simp [depth]
  case methodRef owner name descriptor => rcases referred with rfl | rfl <;> simp [depth]

/-- The places of a symbol's reference tree: those of the trees of its references, in order, and
then its own. -/
def referenceTree (s : Symbol) : List Symbol :=
  s.refs.attach.flatMap (fun r => r.1.referenceTree) ++ [s]
termination_by s.depth
decreasing_by exact depth_lt_of_mem_refs r.2

theorem referenceTree_eq (s : Symbol) :
    s.referenceTree = s.refs.flatMap referenceTree ++ [s] := by
  rw [referenceTree, List.flatMap_subtype (fun _ _ => rfl), List.unattach_attach]

theorem reference_induction {P : Symbol → Prop} (step : ∀ s, (∀ r ∈ s.refs, P r) → P s)
    (s : Symbol) : P s :=
  step s fun r _ => reference_induction step r
termination_by s.depth
decreasing_by exact depth_lt_of_mem_refs ‹_›

theorem uses_eq_referenceTree (s : Symbol) : s.uses = s.referenceTree := by
  cases s <;> simp [referenceTree_eq, refs, uses]

private theorem depth_le_of_mem_referenceTree {s r : Symbol} (member : r ∈ s.referenceTree) :
    r.depth ≤ s.depth := by
  induction s using reference_induction with
  | step s ih =>
    rw [referenceTree_eq, List.mem_append, List.mem_flatMap, List.mem_singleton] at member
    rcases member with ⟨q, referred, member⟩ | rfl
    · have below := depth_lt_of_mem_refs referred
      have inside := ih q referred member
      omega
    · exact Nat.le_refl _

theorem count_flatMap_refs_self (s : Symbol) : (s.refs.flatMap referenceTree).count s = 0 := by
  rw [List.count_eq_zero]
  intro member
  obtain ⟨r, referred, inside⟩ := List.mem_flatMap.mp member
  have below := depth_lt_of_mem_refs referred
  have above := depth_le_of_mem_referenceTree inside
  omega

theorem count_referenceTree_self (s : Symbol) : s.referenceTree.count s = 1 := by
  rw [referenceTree_eq, List.count_append, count_flatMap_refs_self, List.count_singleton_self]

end Symbol

namespace TableCall

def interned : TableCall → List Symbol
  | .intern s => [s]
  | .refer s => s.referenceTree

end TableCall

namespace Table

@[simp]
theorem count_empty (s : Symbol) : empty.count s = 0 := Std.HashMap.getD_empty

@[simp]
private theorem count_intern (t : Table) (s r : Symbol) :
    (t.intern s).count r = t.count r + if s = r then 1 else 0 := by
  obtain ⟨order, counts, nodup, mem⟩ := t
  unfold intern count
  dsimp only
  split
  · rename_i n found
    rw [Std.HashMap.getD_insert]
    by_cases same : s = r
    · subst same
      simp [Std.HashMap.getD_eq_getD_getElem?, found]
    · simp [same]
  · rename_i missing
    rw [Std.HashMap.getD_insert]
    by_cases same : s = r
    · subst same
      simp [Std.HashMap.getD_eq_getD_getElem?, missing]
    · simp [same]

theorem symbols_intern (t : Table) (s : Symbol) :
    (t.intern s).symbols = if t.contains s = true then t.symbols else t.symbols ++ [s] := by
  obtain ⟨order, counts, nodup, mem⟩ := t
  unfold intern symbols contains
  dsimp only
  split
  · rename_i n found
    have known : s ∈ counts := Std.HashMap.mem_iff_isSome_getElem?.mpr (by simp [found])
    rw [if_pos (Std.HashMap.mem_iff_contains.mp known)]
  · rename_i missing
    have fresh : s ∉ counts := by
      rw [Std.HashMap.mem_iff_isSome_getElem?, missing]
      simp
    rw [if_neg (fun held => fresh (Std.HashMap.mem_iff_contains.mpr held)), Array.toList_push]

@[simp]
theorem count_internAll (t : Table) (ss : List Symbol) (r : Symbol) :
    (t.internAll ss).count r = t.count r + ss.count r := by
  induction ss generalizing t with
  | nil => rfl
  | cons s ss ih =>
    have step : t.internAll (s :: ss) = (t.intern s).internAll ss := rfl
    rw [step, ih, count_intern, List.count_cons, beq_eq_decide, Nat.add_assoc]
    simp [Nat.add_comm]

private theorem internAll_append (t : Table) (ss rs : List Symbol) :
    t.internAll (ss ++ rs) = (t.internAll ss).internAll rs := List.foldl_append

theorem symbols_internAll (ss : List Symbol) : (empty.internAll ss).symbols = ss.eraseDups := by
  induction ss using List.reverseRecOn with
  | nil => rfl
  | append_singleton ss s ih =>
    have last : empty.internAll (ss ++ [s]) = (empty.internAll ss).intern s :=
      internAll_append empty ss [s]
    have known : (empty.internAll ss).contains s = true ↔ s ∈ ss := by simp
    rw [last, symbols_intern, ih, List.eraseDups_append]
    by_cases member : s ∈ ss
    · rw [if_pos (known.mpr member)]
      simp [List.removeAll, member]
    · rw [if_neg (fun held => member (known.mp held))]
      simp [List.removeAll, member, List.eraseDups_cons]

private theorem size_internAll (ss : List Symbol) :
    (empty.internAll ss).size = ss.toFinset.card := by
  have distinct : (empty.internAll ss).symbols.toFinset = ss.toFinset := by
    ext s
    rw [symbols_internAll, List.mem_toFinset, List.mem_toFinset, List.mem_eraseDups]
  calc
    (empty.internAll ss).size = (empty.internAll ss).symbols.length := by
      rw [symbols, Array.length_toList, size]
    _ = (empty.internAll ss).symbols.toFinset.card :=
      (List.toFinset_card_of_nodup (empty.internAll ss).nodup).symm
    _ = ss.toFinset.card := by rw [distinct]

private theorem held_of_contains {t : Table} {s : Symbol} (known : t.contains s = true) :
    t.held s = s :=
  Std.HashMap.getKeyD_eq_of_contains known

theorem refer_eq_foldl (t : Table) (s : Symbol) : t.refer s = (s.refs.foldl refer t).intern s := by
  have front : ∀ (rs : List Symbol) (t : Table),
      t.internAll (rs.flatMap Symbol.referenceTree) = rs.foldl refer t := by
    intro rs
    induction rs with
    | nil => exact fun t => rfl
    | cons r rs ih =>
      intro t
      rw [List.flatMap_cons, internAll_append, ih, ← Symbol.uses_eq_referenceTree]
      rfl
  rw [refer, Symbol.uses_eq_referenceTree, Symbol.referenceTree_eq, internAll_append, front]
  rfl

theorem count_refer (t : Table) (s r : Symbol) :
    (t.refer s).count r = t.count r + s.referenceTree.count r := by
  rw [refer, count_internAll, Symbol.uses_eq_referenceTree]

private theorem apply_eq_internAll (t : Table) (call : TableCall) :
    call.apply t = t.internAll call.interned := by
  cases call with
  | intern s => rfl
  | refer s => rw [TableCall.interned, ← Symbol.uses_eq_referenceTree, TableCall.apply, refer]

private theorem answer_eq (t : Table) (call : TableCall) :
    call.answer t = (call.symbol, call.apply t) := by
  have known : (call.apply t).contains call.symbol = true := by
    cases call with
    | intern s => exact (contains_intern t s s).mpr (Or.inl rfl)
    | refer s => exact contains_refer_self t s
  rw [TableCall.answer, held_of_contains known]

theorem answerAll_eq (t : Table) (calls : List TableCall) :
    t.answerAll calls =
      (calls.map TableCall.symbol, t.internAll (calls.flatMap TableCall.interned)) := by
  induction calls generalizing t with
  | nil => rfl
  | cons call calls ih =>
    simp only [answerAll, answer_eq, ih, List.map_cons, List.flatMap_cons]
    rw [apply_eq_internAll, internAll_append]

/-- Whatever is called on a table, it holds the symbols that the calls interned in the order of
their first use, counts each as often as it was interned, and answers each call with the symbol it
asked for. A symbol that is referred to adds one use for every place of its reference tree, of which
it has one. -/
theorem answerAll_counts_and_orders (calls : List TableCall) :
    let interned := calls.flatMap TableCall.interned
    let t := (empty.answerAll calls).2
    (empty.answerAll calls).1 = calls.map TableCall.symbol ∧
      t.symbols = interned.eraseDups ∧
      t.size = interned.toFinset.card ∧
      (∀ s, t.count s = interned.count s) ∧
      (∀ s, t.count s = 0 ↔ t.contains s = false) ∧
      ∀ s, ((TableCall.refer s).apply t).count s = t.count s + 1 ∧
        ∀ r, ((TableCall.refer s).apply t).count r = t.count r + s.referenceTree.count r := by
  intro interned t
  have whole : t = empty.internAll interned := congrArg Prod.snd (answerAll_eq empty calls)
  have counted : ∀ s, t.count s = interned.count s := by
    intro s
    rw [whole, count_internAll, count_empty, Nat.zero_add]
  refine ⟨by rw [answerAll_eq], ?_, ?_, counted, ?_, ?_⟩
  · rw [whole, symbols_internAll]
  · rw [whole, size_internAll]
  · intro s
    have known : t.contains s = true ↔ s ∈ interned := by simp [whole]
    rw [counted, List.count_eq_zero, ← known, Bool.not_eq_true]
  · intro s
    have added : ∀ r, ((TableCall.refer s).apply t).count r = t.count r + s.referenceTree.count r :=
      count_refer t s
    refine ⟨?_, added⟩
    rw [added, Symbol.count_referenceTree_self]

-- One text that is owner, name and descriptor of a field is used three times by it.
example : (Symbol.fieldRef "A" "A" "A").referenceTree.count (.utf8 "A") = 3 := by cbv

end Table

end JvmAssembler
