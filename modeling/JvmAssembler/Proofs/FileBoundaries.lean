import JvmAssembler.Proofs.ClassFileGrammar

/-!
# Where a class file ends

A reader meets its bytes one after the other. Cut short anywhere in what it would have read, it has
done the same up to there and then finds that the bytes have run out; with more bytes behind, it
does what it did without them. So the bytes of a class file end where they must: no file that is
accepted is the front of another.
-/

set_option autoImplicit false
set_option relaxedAutoImplicit false

namespace JvmAssembler

namespace Reader

/-- Given only the front of bytes that it can read, the reader does the same there, or the bytes run
out. -/
def NoticesEnd {α : Type} (r : Reader α) : Prop :=
  ∀ front back a rest, r (front ++ back) = .ok (a, rest) →
    (∃ left, r front = .ok (a, left) ∧ rest = left ++ back) ∨ r front = .error .truncated

section

variable {α β : Type} {r : Reader α} {k : α → Reader β}

private theorem noticesEnd_pure (a : α) : NoticesEnd (pure a : Reader α) := by
  intro front back a' rest given
  obtain ⟨rfl, rfl⟩ := pure_eq_ok_iff.mp given
  exact Or.inl ⟨front, rfl, rfl⟩

private theorem noticesEnd_lift (result : Except ReadError α) : NoticesEnd (lift result) := by
  intro front back a rest given
  obtain ⟨rfl, rfl⟩ := lift_eq_ok_iff.mp given
  exact Or.inl ⟨front, rfl, rfl⟩

private theorem noticesEnd_fail (problem : ReadError) : NoticesEnd (fail problem : Reader α) := by
  intro front back a rest given
  exact (fail_eq_ok_iff.mp given).elim

private theorem bind_of_truncated {front : Bytes} (short : r front = .error .truncated) :
    (r >>= k) front = .error .truncated := by
  change (r front >>= fun p => k p.1 p.2) = _
  rw [short]
  rfl

private theorem bind_of_ok {front left : Bytes} {a : α} (first : r front = .ok (a, left)) :
    (r >>= k) front = k a left := by
  change (r front >>= fun p => k p.1 p.2) = _
  rw [first]
  rfl

private theorem NoticesEnd.bind (first : NoticesEnd r) (second : ∀ a, NoticesEnd (k a)) :
    NoticesEnd (r >>= k) := by
  intro front back b rest given
  obtain ⟨a, mid, taken, after⟩ := bind_eq_ok_iff.mp given
  rcases first front back a mid taken with ⟨left, same, rfl⟩ | short
  · rw [bind_of_ok same]
    exact second a left back b rest after
  · exact Or.inr (bind_of_truncated short)

private theorem noticesEnd_manyFrom {item : Nat → Reader α} (each : ∀ i, NoticesEnd (item i))
    (n : Nat) : ∀ (start : Nat) (found : List α), NoticesEnd (manyFrom item n start found) := by
  induction n with
  | zero => exact fun _ found => noticesEnd_pure found.reverse
  | succ n ih => exact fun start found => (each start).bind fun a => ih (start + 1) (a :: found)

private theorem noticesEnd_many {item : Nat → Reader α} (each : ∀ i, NoticesEnd (item i))
    (n : Nat) : NoticesEnd (many n item) := noticesEnd_manyFrom each n 1 []

end

private theorem noticesEnd_take (n : Nat) : NoticesEnd (take n) := by
  intro front back taken rest given
  obtain ⟨whole, split⟩ := take_eq_ok_iff.mp given
  -- Either all that is taken stands in the front, or the front is too short by itself.
  by_cases enough : n ≤ front.length
  · refine Or.inl ⟨front.drop n, ?_, ?_⟩
    · apply take_eq_ok_iff.mpr
      refine ⟨whole, ?_⟩
      have taken_eq : taken = front.take n := by
        have both := congrArg (List.take n) split
        rw [List.take_append_of_le_length enough, List.take_left' whole] at both
        exact both.symm
      rw [taken_eq, List.take_append_drop]
    · have both := congrArg (List.drop n) split
      rw [List.drop_append_of_le_length enough, List.drop_left' whole] at both
      exact both.symm
  · have short : (front.take n).length ≠ n := by
      rw [List.length_take]
      omega
    exact Or.inr (if_neg short)

private theorem noticesEnd_u1 : NoticesEnd u1 := by
  intro front back n rest given
  match front, given with
  | [], _ => exact Or.inr rfl
  | b :: left, given =>
    cases given
    exact Or.inl ⟨left, rfl, rfl⟩

private theorem noticesEnd_u2 : NoticesEnd u2 := by
  intro front back n rest given
  match front, given with
  | [], _ => exact Or.inr rfl
  | [_], _ => exact Or.inr rfl
  | b₀ :: b₁ :: left, given =>
    cases given
    exact Or.inl ⟨left, rfl, rfl⟩

private theorem noticesEnd_u4 : NoticesEnd u4 := by
  intro front back n rest given
  match front, given with
  | [], _ => exact Or.inr rfl
  | [_], _ => exact Or.inr rfl
  | [_, _], _ => exact Or.inr rfl
  | [_, _, _], _ => exact Or.inr rfl
  | b₀ :: b₁ :: b₂ :: b₃ :: left, given =>
    cases given
    exact Or.inl ⟨left, rfl, rfl⟩

end Reader

open Reader (NoticesEnd noticesEnd_pure noticesEnd_lift noticesEnd_fail noticesEnd_many
  noticesEnd_take noticesEnd_u1 noticesEnd_u2 noticesEnd_u4)

private theorem RawEntry.noticesEnd_readBody (entry : Nat) (tag : Tag) :
    NoticesEnd (readBody entry tag) := by
  have one : ∀ make : UInt16 → RawEntry,
      NoticesEnd (do let i ← Reader.u2; pure (make i)) :=
    fun make => noticesEnd_u2.bind fun i => noticesEnd_pure (make i)
  have two : ∀ make : UInt16 → UInt16 → RawEntry,
      NoticesEnd (do let i ← Reader.u2; let j ← Reader.u2; pure (make i j)) :=
    fun make => noticesEnd_u2.bind fun i => one (make i)
  unfold readBody
  split_ifs
  · refine noticesEnd_u2.bind fun length => (noticesEnd_take _).bind fun bytes => ?_
    split
    · exact noticesEnd_pure _
    · exact noticesEnd_fail _
  · exact noticesEnd_u4.bind fun _ => noticesEnd_pure _
  · exact one _
  · exact one _
  · exact two _
  · exact two _
  · exact two _
  · exact noticesEnd_fail _

private theorem RawEntry.noticesEnd_read (entry : Nat) : NoticesEnd (RawEntry.read entry) :=
  noticesEnd_u1.bind fun tag => noticesEnd_readBody entry ⟨tag⟩

namespace ClassFile

private theorem noticesEnd_skipAttribute : NoticesEnd skipAttribute :=
  noticesEnd_u2.bind fun _ => noticesEnd_u4.bind fun _ => (noticesEnd_take _).bind fun _ =>
    noticesEnd_pure ()

private theorem noticesEnd_skipAttributes : NoticesEnd skipAttributes :=
  noticesEnd_u2.bind fun _ => (noticesEnd_many (fun _ => noticesEnd_skipAttribute) _).bind fun _ =>
    noticesEnd_pure ()

private theorem noticesEnd_skipField : NoticesEnd skipField :=
  (noticesEnd_take 6).bind fun _ => noticesEnd_skipAttributes

private theorem noticesEnd_readMethodAttribute (pool : Array Symbol) (method : Text) :
    NoticesEnd (readMethodAttribute pool method) := by
  refine noticesEnd_u2.bind fun nameIndex => noticesEnd_u4.bind fun length =>
    (noticesEnd_take _).bind fun body => (noticesEnd_lift _).bind fun name => ?_
  -- A code structure is read out of a body that is there as a whole and cannot be cut short here.
  split_ifs
  · split
    · exact noticesEnd_pure _
    · exact noticesEnd_fail _
  · exact noticesEnd_pure _

private theorem noticesEnd_readMethod (pool : Array Symbol) : NoticesEnd (readMethod pool) := by
  refine noticesEnd_u2.bind fun access => noticesEnd_u2.bind fun nameIndex =>
    noticesEnd_u2.bind fun descriptorIndex => noticesEnd_u2.bind fun count =>
      (noticesEnd_lift _).bind fun name => (noticesEnd_lift _).bind fun descriptor => ?_
  exact (noticesEnd_many (fun _ => noticesEnd_readMethodAttribute pool name) _).bind fun codes =>
    noticesEnd_pure _

private theorem noticesEnd_readMagic : NoticesEnd readMagic := by
  refine noticesEnd_u4.bind fun found => ?_
  split_ifs
  · exact noticesEnd_pure ()
  · exact noticesEnd_fail _

private theorem noticesEnd_readPool : NoticesEnd readPool := by
  refine noticesEnd_u2.bind fun count => ?_
  split_ifs
  · exact noticesEnd_fail _
  · exact (noticesEnd_many RawEntry.noticesEnd_read _).bind fun raw =>
      (noticesEnd_lift _).bind fun symbols => noticesEnd_pure _

private theorem noticesEnd_read : NoticesEnd read := by
  refine noticesEnd_readMagic.bind fun _ => noticesEnd_u2.bind fun minor =>
    noticesEnd_u2.bind fun major => noticesEnd_readPool.bind fun pool =>
      noticesEnd_u2.bind fun access => noticesEnd_u2.bind fun thisIndex =>
        noticesEnd_u2.bind fun superIndex => (noticesEnd_lift _).bind fun thisName =>
          (noticesEnd_lift _).bind fun superName => ?_
  refine noticesEnd_u2.bind fun interfaces => (noticesEnd_take _).bind fun _ =>
    noticesEnd_u2.bind fun fields =>
      (noticesEnd_many (fun _ => noticesEnd_skipField) _).bind fun _ =>
        noticesEnd_u2.bind fun count => ?_
  exact (noticesEnd_many (fun _ => noticesEnd_readMethod pool) _).bind fun methods =>
    noticesEnd_skipAttributes.bind fun _ => noticesEnd_pure _

private theorem read_append {bytes : Bytes} {f : ClassFile} (parsed : parse bytes = .ok f)
    (more : Bytes) : read (bytes ++ more) = .ok (f, more) := by
  obtain ⟨l, holds, whole⟩ := reads_read.eq_ok_iff.mp (parse_eq_ok_iff.mp parsed)
  rw [List.append_nil] at whole
  exact reads_read.eq_ok_iff.mpr ⟨l, holds, congrArg (· ++ more) whole⟩

private theorem parse_append {bytes more : Bytes} {f : ClassFile} (parsed : parse bytes = .ok f)
    (extended : more ≠ []) : parse (bytes ++ more) = .error (.trailing more.length) := by
  cases more with
  | nil => exact absurd rfl extended
  | cons b more => rw [parse, read_append parsed]

private theorem parse_of_append {front back : Bytes} {f : ClassFile}
    (parsed : parse (front ++ back) = .ok f) (cut : back ≠ []) :
    parse front = .error .truncated := by
  rcases noticesEnd_read front back f [] (parse_eq_ok_iff.mp parsed) with ⟨left, -, none⟩ | short
  · exact absurd (List.append_eq_nil_iff.mp none.symm).2 cut
  · rw [parse, short]

/-- An accepted file can be neither extended nor truncated: with bytes added it has trailing bytes,
and any proper front of it ends unexpectedly. -/
theorem parse_rejects_other_lengths {bytes : Bytes} {f : ClassFile}
    (accepted : parse bytes = .ok f) :
    (∀ more g, parse (bytes ++ more) = .ok g → more = []) ∧
      (∀ longer, bytes <+: longer → longer ≠ bytes →
        parse longer = .error (.trailing (longer.length - bytes.length))) ∧
      ∀ shorter, shorter <+: bytes → shorter ≠ bytes → parse shorter = .error .truncated := by
  refine ⟨?_, ?_, ?_⟩
  · intro more g parsed
    by_contra extended
    rw [parse_append accepted extended] at parsed
    cases parsed
  · rintro longer ⟨more, rfl⟩ other
    have extended : more ≠ [] := by
      rintro rfl
      exact other (List.append_nil bytes)
    rw [parse_append accepted extended, List.length_append, Nat.add_sub_cancel_left]
  · rintro shorter ⟨back, rfl⟩ other
    apply parse_of_append accepted
    rintro rfl
    exact other (List.append_nil shorter).symm

def returningFile : Bytes :=
  [0xCA, 0xFE, 0xBA, 0xBE, 0x00, 0x00, 0x00, 0x34, 0x00, 0x05] ++
    [0x01, 0x00, 0x01, 0x41, 0x07, 0x00, 0x01, 0x01, 0x00, 0x04, 0x43, 0x6F, 0x64, 0x65] ++
    [0x01, 0x00, 0x03, 0x28, 0x29, 0x56] ++
    [0x00, 0x21, 0x00, 0x02, 0x00, 0x02, 0x00, 0x00] ++
    [0x00, 0x01, 0x00, 0x00, 0x00, 0x01, 0x00, 0x01, 0x00, 0x00] ++
    [0x00, 0x01, 0x00, 0x09, 0x00, 0x01, 0x00, 0x04, 0x00, 0x01] ++
    [0x00, 0x03, 0x00, 0x00, 0x00, 0x0D, 0x00, 0x00, 0x00, 0x00, 0x00, 0x00, 0x00, 0x01, 0xB1] ++
    [0x00, 0x00, 0x00, 0x00, 0x00, 0x00]

theorem parse_rejects_other_lengths_returningFile :
    (∃ f, parse returningFile = .ok f) ∧
      (∀ more g, parse (returningFile ++ more) = .ok g → more = []) ∧
      parse (returningFile ++ [0x00]) = .error (.trailing 1) ∧
      parse (returningFile.take 70) = .error .truncated := by
  have read : (parse returningFile).isOk = true := by decide +kernel
  rcases accepted : parse returningFile with problem | f
  · rw [accepted] at read
    cases read
  · obtain ⟨only, longer, shorter⟩ := parse_rejects_other_lengths accepted
    refine ⟨⟨f, rfl⟩, only, ?_, ?_⟩
    · exact longer _ (List.prefix_append _ _) (by decide)
    · exact shorter _ (List.take_prefix _ _) (by decide)

end ClassFile

end JvmAssembler
