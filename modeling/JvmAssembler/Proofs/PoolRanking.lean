import Mathlib.Data.Set.Function
import Mathlib.Order.Interval.Set.Defs
import JvmAssembler.Proofs.UsageCounts

/-!
# The ranking of a pool

Resolving sorts the symbols of a table by falling use and numbers them from 1 on. The sort is
stable, so symbols that are used equally often keep the order of their first use, and every symbol
gets one number of its own.
-/

set_option autoImplicit false
set_option relaxedAutoImplicit false

namespace JvmAssembler

namespace Table

private theorem idxOf_lt_of_sublist {xs : List Symbol} (nodup : xs.Nodup) {a b : Symbol}
    (pair : [a, b].Sublist xs) : xs.idxOf a < xs.idxOf b := by
  have rising : xs.Pairwise fun x y => xs.idxOf x < xs.idxOf y := by
    rw [List.pairwise_iff_getElem]
    intro i j hi hj below
    rw [nodup.idxOf_getElem, nodup.idxOf_getElem]
    exact below
  simpa using rising.sublist pair

private theorem sublist_of_idxOf_lt {xs : List Symbol} {a b : Symbol} (last : b ∈ xs)
    (below : xs.idxOf a < xs.idxOf b) : [a, b].Sublist xs := by
  have inside : xs.idxOf b < xs.length := List.idxOf_lt_length_of_mem last
  let places : List (Fin xs.length) := [⟨xs.idxOf a, below.trans inside⟩, ⟨xs.idxOf b, inside⟩]
  have rising : places.Pairwise (· < ·) := by simpa [places] using below
  simpa [places] using List.map_getElem_sublist rising

variable {t : Table}

theorem idxOf_ranked_lt_of_sublist {a b : Symbol} (pair : [a, b].Sublist t.symbols)
    (count_le : t.count b ≤ t.count a) : t.ranked.idxOf a < t.ranked.idxOf b := by
  have sorted : [(a, t.count a), (b, t.count b)].Sublist
      ((t.symbols.map fun s => (s, t.count s)).mergeSort fun p q => q.2 ≤ p.2) := by
    apply List.pair_sublist_mergeSort
    · intro p q r first second
      simp only [decide_eq_true_eq] at first second ⊢
      omega
    · intro p q
      simp only [Bool.or_eq_true, decide_eq_true_eq]
      omega
    · exact decide_eq_true count_le
    · exact pair.map fun s => (s, t.count s)
  exact idxOf_lt_of_sublist t.nodup_ranked (sorted.map Prod.fst)

private theorem pairwise_ranked (t : Table) :
    t.ranked.Pairwise fun a b => t.count b ≤ t.count a := by
  have counted : ∀ p ∈ (t.symbols.map fun s => (s, t.count s)).mergeSort fun p q => q.2 ≤ p.2,
      p.2 = t.count p.1 := by
    intro p member
    rw [List.mem_mergeSort, List.mem_map] at member
    obtain ⟨s, -, rfl⟩ := member
    rfl
  have sorted : ((t.symbols.map fun s => (s, t.count s)).mergeSort
      fun p q => q.2 ≤ p.2).Pairwise fun p q => decide (q.2 ≤ p.2) = true := by
    apply List.pairwise_mergeSort
    · intro p q r first second
      simp only [decide_eq_true_eq] at first second ⊢
      omega
    · intro p q
      simp only [Bool.or_eq_true, decide_eq_true_eq]
      omega
  rw [ranked, List.pairwise_map]
  refine sorted.imp_of_mem ?_
  intro p q memberP memberQ falling
  rw [← counted p memberP, ← counted q memberQ]
  exact of_decide_eq_true falling

private theorem count_le_of_idxOf_ranked_lt {a b : Symbol} (last : b ∈ t.ranked)
    (below : t.ranked.idxOf a < t.ranked.idxOf b) : t.count b ≤ t.count a := by
  have pair := t.pairwise_ranked.sublist (sublist_of_idxOf_lt last below)
  simpa using pair

private theorem idxOf_ranked_lt_iff {a b : Symbol} (first : a ∈ t.symbols)
    (second : b ∈ t.symbols) : t.ranked.idxOf a < t.ranked.idxOf b ↔
      t.count b < t.count a ∨
        t.count a = t.count b ∧ t.symbols.idxOf a < t.symbols.idxOf b := by
  have rankedA : a ∈ t.ranked := t.ranked_perm.mem_iff.mpr first
  have rankedB : b ∈ t.ranked := t.ranked_perm.mem_iff.mpr second
  -- A tie is decided by stability, whichever of the two comes first.
  have stable : ∀ {p q : Symbol}, q ∈ t.symbols → t.count p = t.count q →
      t.symbols.idxOf p < t.symbols.idxOf q → t.ranked.idxOf p < t.ranked.idxOf q := by
    intro p q member tie earlier
    exact idxOf_ranked_lt_of_sublist (sublist_of_idxOf_lt member earlier) (Nat.le_of_eq tie.symm)
  constructor
  · intro below
    have falling := count_le_of_idxOf_ranked_lt rankedB below
    rcases Nat.lt_or_eq_of_le falling with more | tie
    · exact Or.inl more
    · refine Or.inr ⟨tie.symm, ?_⟩
      by_contra later
      rcases Nat.lt_or_eq_of_le (Nat.le_of_not_lt later) with earlier | same
      · have above := stable first tie earlier
        omega
      · have equal : b = a := (List.idxOf_inj second).mp same
        rw [equal] at below
        exact Nat.lt_irrefl _ below
  · rintro (more | ⟨tie, earlier⟩)
    · by_contra above
      rcases Nat.lt_or_eq_of_le (Nat.le_of_not_lt above) with below | same
      · have falling := count_le_of_idxOf_ranked_lt rankedA below
        omega
      · have equal : b = a := (List.idxOf_inj rankedB).mp same
        rw [equal] at more
        exact Nat.lt_irrefl _ more
    · exact stable second tie earlier

private theorem idxOf_eraseDups_lt_iff (ss : List Symbol) {a b : Symbol} (first : a ∈ ss)
    (second : b ∈ ss) : ss.eraseDups.idxOf a < ss.eraseDups.idxOf b ↔ ss.idxOf a < ss.idxOf b := by
  induction ss using List.reverseRecOn with
  | nil => cases first
  | append_singleton ss s ih =>
    have inside : ∀ {p : Symbol}, p ∈ ss →
        ss.idxOf p < ss.length ∧ ss.eraseDups.idxOf p < ss.eraseDups.length := fun member =>
      ⟨List.idxOf_lt_length_of_mem member,
        List.idxOf_lt_length_of_mem (List.mem_eraseDups.mpr member)⟩
    rw [List.eraseDups_append]
    by_cases known : s ∈ ss
    · have old : ∀ {p : Symbol}, p ∈ ss ++ [s] → p ∈ ss := by
        intro p member
        rcases List.mem_append.mp member with member | member
        · exact member
        · rwa [List.mem_singleton.mp member]
      have nothing : ([s].removeAll ss).eraseDups = [] := by simp [List.removeAll, known]
      rw [nothing, List.append_nil, List.idxOf_append, List.idxOf_append, if_pos (old first),
        if_pos (old second)]
      exact ih (old first) (old second)
    · have added : ([s].removeAll ss).eraseDups = [s] := by
        simp [List.removeAll, known, List.eraseDups_cons]
      rw [added]
      simp only [List.idxOf_append, List.mem_eraseDups]
      rcases List.mem_append.mp first with oldA | newA
      · rcases List.mem_append.mp second with oldB | newB
        · simp only [if_pos oldA, if_pos oldB]
          exact ih oldA oldB
        · rw [List.mem_singleton.mp newB]
          have bounds := inside oldA
          simp only [if_pos oldA, if_neg known]
          omega
      · rw [List.mem_singleton.mp newA]
        rcases List.mem_append.mp second with oldB | newB
        · have bounds := inside oldB
          simp only [if_pos oldB, if_neg known]
          omega
        · rw [List.mem_singleton.mp newB]
          omega

private theorem kind_of_resolve_eq_error {f : Failure} (failed : t.resolve = .error f) :
    f.kind = if PoolIndex.maxEntries < t.size then .overflow else .invariant := by
  unfold resolve at failed
  by_cases large : PoolIndex.maxEntries < t.size
  · rw [if_pos large] at failed ⊢
    cases failed
    rfl
  · rw [if_neg large] at failed ⊢
    cases leaves : t.dangling? with
    | none =>
      rw [leaves] at failed
      cases failed
    | some pair =>
      rw [leaves] at failed
      cases failed
      rfl

end Table

namespace PoolIndex

def number (x : PoolIndex) (s : Symbol) : Nat :=
  match x.lookup s with
  | .ok i => i.toNat
  | .error _ => 0

/-- An index numbers the symbols of a table from 1 on by the ranking of a history: each symbol has
one number and each number one symbol. -/
structure Ranks (x : PoolIndex) (t : Table) (history : List Symbol) : Prop where
  entries_perm : x.entries.toList.Perm t.symbols
  bijective : Set.BijOn x.number {s | s ∈ t.symbols} (Set.Icc 1 t.size)
  at_iff : ∀ (i : Int) (s : Symbol),
    x.at? i = some s ↔ ∃ j, x.lookup s = .ok j ∧ (j.toNat : Int) = i
  at_none_iff : ∀ i : Int, x.at? i = none ↔ i < 1 ∨ (t.size : Int) < i
  lookup_missing : ∀ s, s ∉ t.symbols → ∃ f, x.lookup s = .error f ∧ f.kind = .invariant
  number_lt_iff : ∀ a ∈ t.symbols, ∀ b ∈ t.symbols, (x.number a < x.number b ↔
    t.count b < t.count a ∨
      t.count a = t.count b ∧ history.idxOf a < history.idxOf b)

end PoolIndex

namespace Table

section Resolved

variable {t : Table} {x : PoolIndex}

private theorem number_of_mem (resolved : t.resolve = .ok x) {s : Symbol} (member : s ∈ t.symbols) :
    x.number s = t.ranked.idxOf s + 1 := by
  have found := lookup_of_contains resolved (contains_iff_mem.mpr member)
  rw [PoolIndex.number, found]
  exact (toNat_of_lookup resolved found).2

private theorem bijOn_number (resolved : t.resolve = .ok x) :
    Set.BijOn x.number {s | s ∈ t.symbols} (Set.Icc 1 t.size) := by
  refine ⟨?_, ?_, ?_⟩
  · intro s member
    have ranked : s ∈ t.ranked := t.ranked_perm.mem_iff.mpr member
    have below := List.idxOf_lt_length_of_mem ranked
    rw [length_ranked] at below
    rw [number_of_mem resolved member]
    exact ⟨by omega, by omega⟩
  · intro a first b second same
    rw [number_of_mem resolved first, number_of_mem resolved second] at same
    exact (List.idxOf_inj (t.ranked_perm.mem_iff.mpr first)).mp (Nat.succ.inj same)
  · rintro n ⟨positive, within⟩
    have inside : n - 1 < t.ranked.length := by
      rw [length_ranked]
      omega
    have member : t.ranked.get ⟨n - 1, inside⟩ ∈ t.symbols :=
      t.ranked_perm.mem_iff.mp (List.get_mem _ _)
    refine ⟨t.ranked.get ⟨n - 1, inside⟩, member, ?_⟩
    rw [number_of_mem resolved member, List.get_eq_getElem, t.nodup_ranked.idxOf_getElem]
    exact Nat.sub_add_cancel positive

private theorem at?_eq_some_iff (resolved : t.resolve = .ok x) (i : Int) (s : Symbol) :
    x.at? i = some s ↔ ∃ j, x.lookup s = .ok j ∧ (j.toNat : Int) = i := by
  constructor
  · intro found
    rw [PoolIndex.at?] at found
    split_ifs at found with low
    rw [← Array.getElem?_toList, entries_of_resolve resolved] at found
    obtain ⟨inside, place⟩ := List.getElem?_eq_some_iff.mp found
    have member : s ∈ t.symbols := t.ranked_perm.mem_iff.mp (place ▸ List.getElem_mem inside)
    have known := lookup_of_contains resolved (contains_iff_mem.mpr member)
    refine ⟨_, known, ?_⟩
    rw [(toNat_of_lookup resolved known).2, ← place, t.nodup_ranked.idxOf_getElem]
    omega
  · rintro ⟨j, known, rfl⟩
    obtain ⟨positive, place⟩ := getElem?_of_lookup resolved known
    rw [PoolIndex.at?, if_neg (by omega)]
    exact place

private theorem at?_eq_none_iff (resolved : t.resolve = .ok x) (i : Int) :
    x.at? i = none ↔ i < 1 ∨ (t.size : Int) < i := by
  have size_eq : x.entries.size = t.size := size_of_resolve resolved
  rw [PoolIndex.at?]
  split_ifs with low
  · simp [low]
  · rw [Array.getElem?_eq_none_iff, size_eq]
    omega

end Resolved

/-- Whatever is called on a table, resolving it succeeds exactly when it has at most 65534 symbols
and holds all that they refer to; too many symbols overflow, and a missing one breaks an invariant.
The symbols are then numbered from 1 on, by falling use and, where they are used equally often, in
the order in which the calls first interned them. -/
theorem resolve_ranks_by_use (calls : List TableCall) :
    let t := (empty.answerAll calls).2
    ((∃ x, t.resolve = .ok x) ↔ t.size ≤ 65534 ∧ ∀ s ∈ t.symbols, ∀ r ∈ s.refs, r ∈ t.symbols) ∧
      (∀ f, t.resolve = .error f → f.kind = if 65534 < t.size then .overflow else .invariant) ∧
      ∀ x, t.resolve = .ok x → x.Ranks t (calls.flatMap TableCall.interned) := by
  intro t
  have whole : t = empty.internAll (calls.flatMap TableCall.interned) :=
    congrArg Prod.snd (answerAll_eq empty calls)
  have closed_iff : t.Closed ↔ ∀ s ∈ t.symbols, ∀ r ∈ s.refs, r ∈ t.symbols := by
    simp only [Closed, contains_iff_mem]
  have ordered : t.symbols = (calls.flatMap TableCall.interned).eraseDups := by
    rw [whole, symbols_internAll]
  refine ⟨?_, fun f failed => kind_of_resolve_eq_error failed, ?_⟩
  · rw [← closed_iff]
    constructor
    · rintro ⟨x, resolved⟩
      obtain ⟨small, closed, -⟩ := resolve_eq_ok_iff.mp resolved
      exact ⟨small, closed⟩
    · rintro ⟨small, closed⟩
      exact ⟨_, resolve_eq_ok_iff.mpr ⟨small, closed, rfl⟩⟩
  · intro x resolved
    refine ⟨?_, bijOn_number resolved, at?_eq_some_iff resolved, at?_eq_none_iff resolved, ?_, ?_⟩
    · rw [entries_of_resolve resolved]
      exact t.ranked_perm
    · intro s missing
      exact ⟨_, lookup_of_not_contains resolved (fun held => missing (contains_iff_mem.mp held)),
        rfl⟩
    · intro a first b second
      have firstUse : t.symbols.idxOf a < t.symbols.idxOf b ↔
          (calls.flatMap TableCall.interned).idxOf a <
            (calls.flatMap TableCall.interned).idxOf b := by
        rw [ordered] at first second ⊢
        exact idxOf_eraseDups_lt_iff _ (List.mem_eraseDups.mp first) (List.mem_eraseDups.mp second)
      rw [number_of_mem resolved first, number_of_mem resolved second, Nat.add_lt_add_iff_right,
        idxOf_ranked_lt_iff first second, firstUse]

end Table

end JvmAssembler
