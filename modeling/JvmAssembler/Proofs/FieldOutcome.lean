import Mathlib.Data.List.Forall2
import JvmAssembler.ClassFile.Write
import JvmAssembler.Proofs.CheckedWriting

/-!
# How checked computations end

A checked computation ends in one of three ways: with a result, with an overflow because something
does not fit its field, or with a broken invariant because something is inconsistent. Writing
fields is the first such computation.
-/

set_option autoImplicit false
set_option relaxedAutoImplicit false

namespace JvmAssembler

/-- How a computation ends whose input is consistent and fits exactly when it gives a result. An
input that does not fit overflows, and one that is inconsistent breaks an invariant. -/
inductive Verdict {α : Type} (consistent fits : Prop) : Except Failure α → Prop where
  | done (a : α) (sound : consistent) (small : fits) : Verdict consistent fits (.ok a)
  | oversized (operation : Text) (cause : Cause) (large : ¬ fits) :
    Verdict consistent fits (.error (.because .overflow operation cause))
  | inconsistent (operation : Text) (cause : Cause) (broken : ¬ consistent) :
    Verdict consistent fits (.error (.because .invariant operation cause))

namespace Verdict

variable {α β : Type} {p q p' q' : Prop} {r : Except Failure α}

theorem congr (h : Verdict p q r) (hp : p ↔ p') (hq : q ↔ q') : Verdict p' q' r := by
  rwa [← hp, ← hq]

theorem pure (a : α) : Verdict True True (.ok a : Except Failure α) := .done a trivial trivial

theorem bind {k : α → Except Failure β} (h : Verdict p q r)
    (next : ∀ a, r = .ok a → Verdict p' q' (k a)) : Verdict (p ∧ p') (q ∧ q') (r >>= k) := by
  cases h with
  | done a sound small =>
    change Verdict (p ∧ p') (q ∧ q') (k a)
    exact (next a rfl).congr (by simp [sound]) (by simp [small])
  | oversized operation cause large => exact .oversized operation cause (fun h => large h.1)
  | inconsistent operation cause broken => exact .inconsistent operation cause (fun h => broken h.1)

theorem bind_ok {k : α → Except Failure β} (h : Verdict p q r) (total : ∀ a, ∃ b, k a = .ok b) :
    Verdict p q (r >>= k) := by
  have both := h.bind (k := k) fun a _ => by
    obtain ⟨b, equal⟩ := total a
    rw [equal]
    exact Verdict.pure b
  exact both.congr (by simp) (by simp)

theorem map (f : α → β) (h : Verdict p q r) : Verdict p q (r.map f) := by
  cases h with
  | done a sound small => exact .done (f a) sound small
  | oversized operation cause large => exact .oversized operation cause large
  | inconsistent operation cause broken => exact .inconsistent operation cause broken

theorem mapM {f : α → Except Failure β} {P Q : α → Prop} (as : List α)
    (each : ∀ a ∈ as, Verdict (P a) (Q a) (f a)) :
    Verdict (∀ a ∈ as, P a) (∀ a ∈ as, Q a) (as.mapM f) := by
  induction as with
  | nil => exact .done [] (by simp) (by simp)
  | cons a as ih =>
    rw [List.mapM_cons]
    have head := each a List.mem_cons_self
    have tail := ih fun b member => each b (List.mem_cons_of_mem a member)
    have both := head.bind (k := fun b => as.mapM f >>= fun bs => Pure.pure (b :: bs))
      fun b _ => tail.bind fun bs _ => Verdict.pure (b :: bs)
    exact both.congr (by simp) (by simp)

theorem exists_ok_iff (h : Verdict p q r) : (∃ a, r = .ok a) ↔ p ∧ q := by
  cases h with
  | done a sound small => exact ⟨fun _ => ⟨sound, small⟩, fun _ => ⟨a, rfl⟩⟩
  | oversized operation cause large =>
    exact ⟨fun ⟨_, equal⟩ => (by cases equal), fun both => absurd both.2 large⟩
  | inconsistent operation cause broken =>
    exact ⟨fun ⟨_, equal⟩ => (by cases equal), fun both => absurd both.1 broken⟩

end Verdict

theorem exists_of_bind_eq_ok {ε α β : Type} {r : Except ε α} {k : α → Except ε β} {b : β}
    (ran : (r >>= k) = .ok b) : ∃ a, r = .ok a ∧ k a = .ok b := by
  cases r with
  | error e => cases ran
  | ok a => exact ⟨a, rfl, ran⟩

theorem forall₂_of_mapM_eq_ok {α β ε : Type} {f : α → Except ε β} {as : List α} {bs : List β}
    (all : as.mapM f = .ok bs) : List.Forall₂ (fun a b => f a = .ok b) as bs := by
  induction as generalizing bs with
  | nil =>
    cases all
    exact .nil
  | cons a as ih =>
    rw [List.mapM_cons] at all
    obtain ⟨b, head, all⟩ := exists_of_bind_eq_ok all
    obtain ⟨rest, tail, all⟩ := exists_of_bind_eq_ok all
    cases all
    exact .cons head (ih tail)

namespace Field

theorem encodeAll_of_fits {fs : List Field} (fit : ∀ f ∈ fs, f.fits = true) :
    encodeAll fs = .ok (fs.flatMap Field.bytes) := by
  rw [forall_fits_iff] at fit
  cases FieldWriter.progress_putAll fs with
  | running inRange going bytes => rw [encodeAll, FieldWriter.result, going, bytes]
  | stopped before width name value after order inRange outside reported bytes =>
    exact absurd fit (not_forall_inRange order outside)

theorem encodeAll_verdict (fs : List Field) :
    Verdict True (∀ f ∈ fs, f.fits = true) (encodeAll fs) := by
  rw [forall_fits_iff]
  cases FieldWriter.progress_putAll fs with
  | running inRange going bytes =>
    rw [encodeAll_of_fits ((forall_fits_iff fs).mpr inRange)]
    exact .done _ trivial inRange
  | stopped before width name value after order inRange outside reported bytes =>
    rw [encodeAll, FieldWriter.result, reported]
    exact .oversized "classfile.Writer" (.outOfRange name value width.largest)
      (not_forall_inRange order outside)

theorem encodeAll_eq_ok {fs : List Field} {bytes : Bytes} (written : encodeAll fs = .ok bytes) :
    (∀ f ∈ fs, f.fits = true) ∧ bytes = fs.flatMap Field.bytes := by
  have fit := ((encodeAll_verdict fs).exists_ok_iff.mp ⟨bytes, written⟩).2
  rw [encodeAll_of_fits fit] at written
  cases written
  exact ⟨fit, rfl⟩

private theorem fits_number_iff (width : Width) (name : Text) (value : Nat) :
    (Field.number width name value).fits = true ↔ value ≤ width.largest := by
  simp only [fits, Bool.and_eq_true, decide_eq_true_eq]
  omega

@[simp]
theorem fits_u1 (name : Text) (value : Nat) :
    (ClassFile.u1 name value).fits = true ↔ value ≤ 255 := fits_number_iff .u1 name value

@[simp]
theorem fits_u2 (name : Text) (value : Nat) :
    (ClassFile.u2 name value).fits = true ↔ value ≤ 65535 := fits_number_iff .u2 name value

@[simp]
theorem fits_u4 (name : Text) (value : Nat) :
    (ClassFile.u4 name value).fits = true ↔ value ≤ 4294967295 := fits_number_iff .u4 name value

@[simp]
theorem fits_raw (bytes : Bytes) : (Field.raw bytes).fits = true := rfl

@[simp]
theorem bytes_u2 (name : Text) (value : Nat) :
    (ClassFile.u2 name value).bytes = BigEndian.bytes 2 value := rfl

@[simp]
theorem bytes_u4 (name : Text) (value : Nat) :
    (ClassFile.u4 name value).bytes = BigEndian.bytes 4 value := rfl

@[simp]
theorem bytes_raw (bytes : Bytes) : (Field.raw bytes).bytes = bytes := rfl

end Field

end JvmAssembler
