import Mathlib.Data.List.Nodup
import Mathlib.Data.List.Perm.Basic
import Mathlib.Tactic.SplitIfs
import JvmAssembler.Pool.Index

/-!
# Resolved pools

Resolving a table succeeds when it is small enough and no reference leads out of it. The index it
gives then numbers the symbols of the table, each once and without gaps, from 1 on.
-/

set_option autoImplicit false
set_option relaxedAutoImplicit false

namespace JvmAssembler

namespace Table

theorem contains_iff_mem {t : Table} {s : Symbol} : t.contains s = true ↔ s ∈ t.symbols := by
  rw [contains, symbols, Array.mem_toList_iff, t.mem_order_iff, Std.HashMap.mem_iff_contains]

theorem ranked_perm (t : Table) : t.ranked.Perm t.symbols := by
  have sorted := (List.mergeSort_perm (t.symbols.map fun s => (s, t.count s))
    fun a b => b.2 ≤ a.2).map Prod.fst
  rw [List.map_map] at sorted
  have same : Prod.fst ∘ (fun s => (s, t.count s)) = (id : Symbol → Symbol) := rfl
  rwa [same, List.map_id] at sorted

theorem nodup_ranked (t : Table) : t.ranked.Nodup := t.ranked_perm.nodup_iff.mpr t.nodup

theorem mem_ranked {t : Table} {s : Symbol} : s ∈ t.ranked ↔ t.contains s = true := by
  rw [t.ranked_perm.mem_iff, contains_iff_mem]

theorem length_ranked (t : Table) : t.ranked.length = t.size := by
  rw [t.ranked_perm.length_eq, symbols, size, Array.length_toList]

def Closed (t : Table) : Prop :=
  ∀ s, t.contains s = true → ∀ r ∈ s.refs, t.contains r = true

theorem dangling?_eq_none_iff {t : Table} : t.dangling? = none ↔ t.Closed := by
  simp only [dangling?, List.findSome?_eq_none_iff, Option.map_eq_none_iff, List.find?_eq_none,
    Bool.not_eq_true', Bool.not_eq_false, Closed, contains_iff_mem]

end Table

namespace PoolIndex

private theorem foldl_insert_indices (entries : List Symbol) (nodup : entries.Nodup)
    (m : Std.HashMap Symbol UInt16) (n : Nat) (s : Symbol) :
    (entries.foldl
      (fun (state : Std.HashMap Symbol UInt16 × UInt16) s =>
        (state.1.insert s (state.2 + 1), state.2 + 1)) (m, UInt16.ofNat n)).1[s]? =
      if s ∈ entries then some (UInt16.ofNat (n + entries.idxOf s + 1)) else m[s]? := by
  induction entries generalizing m n with
  | nil => simp
  | cons e entries ih =>
    obtain ⟨fresh, nodup⟩ := List.nodup_cons.mp nodup
    have next : UInt16.ofNat n + 1 = UInt16.ofNat (n + 1) := by simp
    rw [List.foldl_cons]
    simp only [next]
    rw [ih nodup]
    by_cases same : e = s
    · subst same
      simp [fresh]
    · have idx : (e :: entries).idxOf s = entries.idxOf s + 1 := List.idxOf_cons_ne _ same
      rw [idx, Std.HashMap.getElem?_insert]
      have later : n + 1 + entries.idxOf s + 1 = n + (entries.idxOf s + 1) + 1 := by omega
      simp [same, Ne.symm same, later]

private theorem indices_ofEntries {entries : List Symbol} (nodup : entries.Nodup) (s : Symbol) :
    (ofEntries entries).indices[s]? =
      if s ∈ entries then some (UInt16.ofNat (entries.idxOf s + 1)) else none := by
  have fold := foldl_insert_indices entries nodup ∅ 0 s
  simpa [ofEntries] using fold

end PoolIndex

namespace PoolIndex

private theorem lookup_ofEntries_of_mem {entries : List Symbol} (nodup : entries.Nodup) {s : Symbol}
    (member : s ∈ entries) :
    (ofEntries entries).lookup s = .ok (UInt16.ofNat (entries.idxOf s + 1)) := by
  rw [lookup, indices_ofEntries nodup, if_pos member]

private theorem lookup_ofEntries_of_notMem {entries : List Symbol} (nodup : entries.Nodup)
    {s : Symbol} (missing : s ∉ entries) :
    (ofEntries entries).lookup s =
      .error (.because .invariant "pool.Lookup" (.neverInterned s)) := by
  rw [lookup, indices_ofEntries nodup, if_neg missing]

end PoolIndex

namespace Table

theorem resolve_eq_ok_iff {t : Table} {x : PoolIndex} :
    t.resolve = .ok x ↔
      t.size ≤ PoolIndex.maxEntries ∧ t.Closed ∧ x = PoolIndex.ofEntries t.ranked := by
  rw [← dangling?_eq_none_iff]
  unfold resolve
  split_ifs with large
  · constructor
    · intro h
      cases h
    · rintro ⟨small, -, -⟩
      omega
  · cases leaves : t.dangling? with
    | some pair =>
      constructor
      · intro h
        cases h
      · rintro ⟨-, h, -⟩
        cases h
    | none =>
      constructor
      · intro h
        cases h
        exact ⟨Nat.le_of_not_lt large, rfl, rfl⟩
      · rintro ⟨-, -, rfl⟩
        rfl

section Resolved

variable {t : Table} {x : PoolIndex}

theorem entries_of_resolve (resolved : t.resolve = .ok x) : x.entries.toList = t.ranked := by
  obtain ⟨-, -, rfl⟩ := resolve_eq_ok_iff.mp resolved
  rfl

theorem size_of_resolve (resolved : t.resolve = .ok x) : x.size = t.size := by
  rw [PoolIndex.size, ← Array.length_toList, entries_of_resolve resolved, length_ranked]

theorem lookup_of_contains (resolved : t.resolve = .ok x) {s : Symbol}
    (member : t.contains s = true) :
    x.lookup s = .ok (UInt16.ofNat (t.ranked.idxOf s + 1)) := by
  obtain ⟨-, -, rfl⟩ := resolve_eq_ok_iff.mp resolved
  exact PoolIndex.lookup_ofEntries_of_mem t.nodup_ranked (mem_ranked.mpr member)

theorem lookup_of_not_contains (resolved : t.resolve = .ok x) {s : Symbol}
    (missing : ¬ t.contains s = true) :
    x.lookup s = .error (.because .invariant "pool.Lookup" (.neverInterned s)) := by
  obtain ⟨-, -, rfl⟩ := resolve_eq_ok_iff.mp resolved
  exact PoolIndex.lookup_ofEntries_of_notMem t.nodup_ranked (fun h => missing (mem_ranked.mp h))

theorem toNat_of_lookup (resolved : t.resolve = .ok x) {s : Symbol} {i : UInt16}
    (found : x.lookup s = .ok i) : s ∈ t.ranked ∧ i.toNat = t.ranked.idxOf s + 1 := by
  by_cases member : t.contains s = true
  · rw [lookup_of_contains resolved member] at found
    cases found
    have ranked := mem_ranked.mpr member
    have below := List.idxOf_lt_length_of_mem ranked
    obtain ⟨small, -, -⟩ := resolve_eq_ok_iff.mp resolved
    rw [length_ranked] at below
    have narrow : t.ranked.idxOf s + 1 < 2 ^ 16 := by
      have bound : PoolIndex.maxEntries = 65534 := rfl
      omega
    exact ⟨ranked, UInt16.toNat_ofNat_of_lt' narrow⟩
  · rw [lookup_of_not_contains resolved member] at found
    cases found

theorem getElem?_of_lookup (resolved : t.resolve = .ok x) {s : Symbol} {i : UInt16}
    (found : x.lookup s = .ok i) : 0 < i.toNat ∧ x.entries[i.toNat - 1]? = some s := by
  obtain ⟨ranked, index⟩ := toNat_of_lookup resolved found
  have below := List.idxOf_lt_length_of_mem ranked
  refine ⟨by omega, ?_⟩
  rw [← Array.getElem?_toList, entries_of_resolve resolved, index, Nat.add_sub_cancel,
    List.getElem?_eq_getElem below, List.getElem_idxOf below]

end Resolved

end Table

end JvmAssembler
