import Mathlib.Data.List.Forall2
import Mathlib.Data.List.Induction
import JvmAssembler.ClassFile.Writer
import JvmAssembler.Proofs.FieldReading

/-!
# A writer stops at the first number that does not fit

Any sequence of fields can be given to a writer. As long as the numbers fit, it holds the bytes of
the fields, one after the other. The first number that does not fit is what it reports from there
on, and the bytes of the fields before that number are all that it ever holds.
-/

set_option autoImplicit false
set_option relaxedAutoImplicit false

namespace JvmAssembler

namespace Field

/-- A number lies in the unsigned range of its width. Raw bytes have no range. -/
def InRange : Field → Prop
  | .number width _ value => 0 ≤ value ∧ value < (256 ^ width.size : Nat)
  | .raw _ => True

/-- The bytes stand for the field: a number is in as many of them as its width says, the most
significant first. -/
def SpelledBy : Field → Bytes → Prop
  | .number width _ value, bs => bs.length = width.size ∧ (BigEndian.value bs : Int) = value
  | .raw bytes, bs => bs = bytes

def Spelled (fs : List Field) (bytes : Bytes) : Prop :=
  ∃ parts, List.Forall₂ SpelledBy fs parts ∧ bytes = parts.flatten

end Field

private theorem Width.largest_eq (width : Width) : width.largest = 256 ^ width.size - 1 := by
  cases width with
  | u1 => rfl
  | u2 => rfl
  | u4 => rfl

namespace Field

private theorem fits_iff_inRange (f : Field) : f.fits = true ↔ f.InRange := by
  cases f with
  | raw bytes => exact iff_of_true rfl trivial
  | number width name value =>
    have positive : 0 < 256 ^ width.size := Nat.pow_pos (by decide)
    have largest := width.largest_eq
    simp only [fits, InRange, Bool.and_eq_true, decide_eq_true_eq]
    omega

theorem forall_fits_iff (fs : List Field) :
    (∀ f ∈ fs, f.fits = true) ↔ ∀ f ∈ fs, f.InRange :=
  forall₂_congr fun f _ => f.fits_iff_inRange

theorem not_forall_inRange {fs before after : List Field} {f : Field}
    (order : fs = before ++ f :: after) (outside : ¬ f.InRange) : ¬ ∀ g ∈ fs, g.InRange := by
  intro all
  have member : f ∈ fs := by simp [order]
  exact outside (all f member)

private theorem spelledBy_bytes {f : Field} (inRange : f.InRange) : f.SpelledBy f.bytes := by
  cases f with
  | raw bytes => rfl
  | number width name value =>
    obtain ⟨nonneg, small⟩ := inRange
    have fitting : value.toNat < 256 ^ width.size := (Int.toNat_lt nonneg).mpr small
    refine ⟨BigEndian.length_bytes width.size value.toNat, ?_⟩
    change ((BigEndian.value (BigEndian.bytes width.size value.toNat) : Nat) : Int) = value
    rw [BigEndian.value_bytes width.size fitting, Int.toNat_of_nonneg nonneg]

private theorem spelled_flatMap_bytes {fs : List Field} (inRange : ∀ f ∈ fs, f.InRange) :
    Spelled fs (fs.flatMap Field.bytes) := by
  refine ⟨fs.map Field.bytes, ?_, List.flatMap_def ..⟩
  rw [List.forall₂_map_right_iff, List.forall₂_same]
  intro f member
  exact spelledBy_bytes (inRange f member)

def misfit (width : Width) (name : Text) (value : Int) : Failure :=
  .because .overflow "classfile.Writer" (.outOfRange name value width.largest)

private theorem message_misfit (width : Width) (name : Text) (value : Int) :
    (misfit width name value).message =
      .concat ["overflow: classfile.Writer: ", name, " is ", .signed value,
        ", must be between 0 and ", .decimal (256 ^ width.size - 1)] := by
  have front : Text.ofString "overflow: classfile.Writer: " =
      Kind.overflow.text ++ Text.ofString ": " ++ Text.ofString "classfile.Writer" ++
        Text.ofString ": " := by decide
  rw [← width.largest_eq, front]
  rfl

end Field

namespace FieldWriter

open JvmAssembler.Field (misfit)

/-- How a writer stands after fields that were given to it in order. -/
inductive Progress (fs : List Field) (w : FieldWriter) : Prop where
  | running (inRange : ∀ f ∈ fs, f.InRange) (going : w.stopped = none)
      (bytes : w.written = fs.flatMap Field.bytes)
  | stopped (before : List Field) (width : Width) (name : Text) (value : Int) (after : List Field)
      (order : fs = before ++ .number width name value :: after)
      (inRange : ∀ f ∈ before, f.InRange) (outside : ¬ (Field.number width name value).InRange)
      (reported : w.stopped = some (misfit width name value))
      (bytes : w.written = before.flatMap Field.bytes)

section

variable {w : FieldWriter} {failure : Failure} {f : Field}

private theorem put_of_stopped (stopped : w.stopped = some failure) (f : Field) : w.put f = w := by
  rw [put, stopped]
  rfl

private theorem putAll_of_stopped (stopped : w.stopped = some failure) (fs : List Field) :
    w.putAll fs = w := by
  induction fs with
  | nil => rfl
  | cons f fs ih =>
    rw [putAll, List.foldl_cons, put_of_stopped stopped]
    exact ih

private theorem put_of_inRange (going : w.stopped = none) (inRange : f.InRange) :
    w.put f = { w with chunks := w.chunks.push f.bytes } := by
  have fits := f.fits_iff_inRange.mpr inRange
  rw [put, going, if_neg (by simp), if_pos fits]

private theorem written_put (going : w.stopped = none) (inRange : f.InRange) :
    (w.put f).written = w.written ++ f.bytes := by
  rw [put_of_inRange going inRange]
  simp [written]

private theorem put_of_outside {width : Width} {name : Text} {value : Int}
    (going : w.stopped = none) (outside : ¬ (Field.number width name value).InRange) :
    w.put (.number width name value) = { w with stopped := some (misfit width name value) } := by
  have large : ¬ (Field.number width name value).fits = true := by
    rwa [Field.fits_iff_inRange]
  rw [put, going, if_neg (by simp), if_neg large]
  rfl

private theorem Progress.put {fs : List Field} (progress : Progress fs w) (f : Field) :
    Progress (fs ++ [f]) (w.put f) := by
  cases progress with
  | stopped before width name value after order inRange outside reported bytes =>
    rw [put_of_stopped reported]
    refine .stopped before width name value (after ++ [f]) ?_ inRange outside reported bytes
    rw [order, List.append_assoc, List.cons_append]
  | running inRange going bytes =>
    by_cases next : f.InRange
    · refine .running ?_ ?_ ?_
      · intro g member
        rcases List.mem_append.mp member with early | last
        · exact inRange g early
        · rw [List.mem_singleton.mp last]
          exact next
      · rw [put_of_inRange going next]
        exact going
      · rw [written_put going next, bytes, List.flatMap_append, List.flatMap_singleton]
    · cases f with
      | raw raw => exact absurd trivial next
      | number width name value =>
        rw [put_of_outside going next]
        exact .stopped fs width name value [] rfl inRange next rfl bytes

end

theorem progress_putAll (fs : List Field) : Progress fs (({} : FieldWriter).putAll fs) := by
  induction fs using List.reverseRecOn with
  | nil => exact .running (List.forall_mem_nil _) rfl rfl
  | append_singleton fs f ih =>
    rw [putAll, List.foldl_append]
    exact ih.put f

/-- A writer gives bytes exactly when every number was in the range of its field, and these are the
fields in order. Else it reports the first number that was not, whatever is written later, and
stays as long as the fields before that number are. -/
theorem putAll_gives_bytes_or_first_misfit (fs : List Field) :
    let w := ({} : FieldWriter).putAll fs
    ((∃ bytes, w.result = .ok bytes) ↔ ∀ f ∈ fs, f.InRange) ∧
    (∀ bytes, w.result = .ok bytes → Field.Spelled fs bytes ∧ w.length = bytes.length) ∧
    ((¬ ∀ f ∈ fs, f.InRange) →
      ∃ (before : List Field) (width : Width) (name : Text) (value : Int) (after : List Field)
          (bytes : Bytes),
        fs = before ++ .number width name value :: after ∧
        (∀ f ∈ before, f.InRange) ∧ ¬ (Field.number width name value).InRange ∧
        Field.Spelled before bytes ∧
        ∃ failure : Failure, failure.kind = .overflow ∧
          failure.message = .concat ["overflow: classfile.Writer: ", name, " is ", .signed value,
            ", must be between 0 and ", .decimal (256 ^ width.size - 1)] ∧
          ∀ later, (w.putAll later).result = .error failure ∧
            (w.putAll later).length = bytes.length) := by
  intro w
  have progress : Progress fs w := progress_putAll fs
  cases progress with
  | running inRange going bytes =>
    have result_eq : w.result = .ok w.written := by rw [result, going]
    refine ⟨iff_of_true ⟨_, result_eq⟩ inRange, ?_, fun misfits => absurd inRange misfits⟩
    intro found given
    rw [result_eq] at given
    cases given
    refine ⟨?_, rfl⟩
    rw [bytes]
    exact Field.spelled_flatMap_bytes inRange
  | stopped before width name value after order inRange outside reported bytes =>
    have result_eq : w.result = .error (misfit width name value) := by rw [result, reported]
    have no_bytes : ∀ found, w.result ≠ .ok found := by
      intro found given
      rw [result_eq] at given
      cases given
    have misfits := Field.not_forall_inRange order outside
    have no_result : ¬ ∃ found, w.result = .ok found := fun ⟨found, given⟩ => no_bytes found given
    refine ⟨iff_of_false no_result misfits, fun found given => absurd given (no_bytes found), ?_⟩
    intro _
    refine ⟨before, width, name, value, after, w.written, order, inRange, outside, ?_,
      misfit width name value, rfl, Field.message_misfit width name value, ?_⟩
    · rw [bytes]
      exact Field.spelled_flatMap_bytes inRange
    · intro later
      rw [putAll_of_stopped reported]
      exact ⟨result_eq, rfl⟩

def fieldsAtLimits : List Field :=
  [.number .u1 "tag" 255, .number .u2 "count" 0, .number .u4 "length" 4294967295, .raw [8]]

theorem putAll_gives_bytes_of_fieldsAtLimits :
    (∀ f ∈ fieldsAtLimits, f.InRange) ∧
      Field.Spelled fieldsAtLimits [255, 0, 0, 255, 255, 255, 255, 8] ∧
      ¬ ∃ bytes, (({} : FieldWriter).putAll
        (fieldsAtLimits ++ [.number .u2 "count" (-9223372036854775808), .raw [9]])).result =
          .ok bytes := by
  obtain ⟨accepted, bytes_of, -⟩ := putAll_gives_bytes_or_first_misfit fieldsAtLimits
  have given : (({} : FieldWriter).putAll fieldsAtLimits).result =
      .ok [255, 0, 0, 255, 255, 255, 255, 8] := rfl
  refine ⟨accepted.mp ⟨_, given⟩, (bytes_of _ given).1, ?_⟩
  rw [(putAll_gives_bytes_or_first_misfit _).1]
  intro all
  have negative := (all (.number .u2 "count" (-9223372036854775808)) (by simp)).1
  cases negative

end FieldWriter

end JvmAssembler
