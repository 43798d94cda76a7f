import Mathlib.Tactic.Common
import JvmAssembler.Proofs.PoolResolution

/-!
# What interning adds

Interning a symbol adds that symbol and nothing else. Referring to a symbol adds it with everything
it refers to, so a table that is only referred to stays closed under references.
-/

set_option autoImplicit false
set_option relaxedAutoImplicit false

namespace JvmAssembler

namespace Symbol

theorem mem_uses_self (s : Symbol) : s ∈ s.uses := by
  cases s <;> simp [uses]

private theorem mem_uses_of_mem_refs (s : Symbol) : ∀ r ∈ s.uses, ∀ q ∈ r.refs, q ∈ s.uses := by
  cases s <;> simp [uses, refs]

end Symbol

namespace Table

@[simp]
theorem contains_empty (s : Symbol) : empty.contains s = false :=
  Std.HashMap.contains_empty

@[simp]
theorem contains_intern (t : Table) (s r : Symbol) :
    (t.intern s).contains r = true ↔ r = s ∨ t.contains r = true := by
  obtain ⟨order, counts, nodup, mem⟩ := t
  unfold intern contains
  dsimp only
  split
  · rw [Std.HashMap.contains_insert, Bool.or_eq_true, beq_iff_eq, eq_comm]
  · rw [Std.HashMap.contains_insert, Bool.or_eq_true, beq_iff_eq, eq_comm]

@[simp]
theorem contains_internAll (t : Table) (ss : List Symbol) (r : Symbol) :
    (t.internAll ss).contains r = true ↔ r ∈ ss ∨ t.contains r = true := by
  induction ss generalizing t with
  | nil => simp [internAll]
  | cons s ss ih =>
    have step : t.internAll (s :: ss) = (t.intern s).internAll ss := rfl
    rw [step, ih, contains_intern, List.mem_cons]
    tauto

@[simp]
theorem contains_refer (t : Table) (s r : Symbol) :
    (t.refer s).contains r = true ↔ r ∈ s.uses ∨ t.contains r = true :=
  contains_internAll t s.uses r

private theorem size_intern_le (t : Table) (s : Symbol) : (t.intern s).size ≤ t.size + 1 := by
  obtain ⟨order, counts, nodup, mem⟩ := t
  unfold intern size
  dsimp only
  split
  · exact Nat.le_succ _
  · exact Nat.le_of_eq (Array.size_push s)

theorem size_internAll_le (t : Table) (ss : List Symbol) :
    (t.internAll ss).size ≤ t.size + ss.length := by
  induction ss generalizing t with
  | nil => exact Nat.le_refl _
  | cons s ss ih =>
    have step : t.internAll (s :: ss) = (t.intern s).internAll ss := rfl
    have first := size_intern_le t s
    have rest := ih (t.intern s)
    rw [step, List.length_cons]
    omega

def Extends (t t' : Table) : Prop := ∀ s, t.contains s = true → t'.contains s = true

theorem extends_refer (t : Table) (s : Symbol) : t.Extends (t.refer s) :=
  fun r held => (contains_refer t s r).mpr (Or.inr held)

theorem contains_refer_self (t : Table) (s : Symbol) : (t.refer s).contains s = true :=
  (contains_refer t s s).mpr (Or.inl s.mem_uses_self)

theorem Extends.trans {t t' t'' : Table} (first : t.Extends t') (second : t'.Extends t'') :
    t.Extends t'' := fun s held => second s (first s held)

private theorem extends_foldl_refer (t : Table) (ss : List Symbol) :
    t.Extends (ss.foldl refer t) := by
  induction ss generalizing t with
  | nil => exact fun _ held => held
  | cons s ss ih => exact (t.extends_refer s).trans (ih (t.refer s))

theorem contains_foldl_refer (t : Table) {ss : List Symbol} {s : Symbol} (member : s ∈ ss) :
    (ss.foldl refer t).contains s = true := by
  induction ss generalizing t with
  | nil => cases member
  | cons r ss ih =>
    rcases List.mem_cons.mp member with rfl | member
    · exact extends_foldl_refer (t.refer s) ss s (t.contains_refer_self s)
    · exact ih (t.refer r) member

theorem Closed.refer {t : Table} (closed : t.Closed) (s : Symbol) : (t.refer s).Closed := by
  intro r held q referred
  rw [contains_refer] at held ⊢
  rcases held with used | held
  · exact Or.inl (s.mem_uses_of_mem_refs r used q referred)
  · exact Or.inr (closed r held q referred)

end Table

end JvmAssembler
