import JvmAssembler.Proofs.FieldReading

/-!
# What readers accept

A reader that gives a value has taken bytes of a certain form and left the rest. For each way of
building readers it is said which form that is, as an equivalence, so that what a reader accepts can
be read off its parts.
-/

set_option autoImplicit false
set_option relaxedAutoImplicit false

namespace JvmAssembler

namespace Reader

section

variable {α β : Type} {r : Reader α} {k : α → Reader β} {bs rest : Bytes} {a a' : α} {b : β}

theorem pure_eq_ok_iff : (pure a : Reader α) bs = .ok (a', rest) ↔ a' = a ∧ bs = rest := by
  constructor
  · intro given
    cases given
    exact ⟨rfl, rfl⟩
  · rintro ⟨rfl, rfl⟩
    rfl

theorem bind_eq_ok_iff :
    (r >>= k) bs = .ok (b, rest) ↔ ∃ a mid, r bs = .ok (a, mid) ∧ k a mid = .ok (b, rest) := by
  change (r bs >>= fun p => k p.1 p.2) = _ ↔ _
  rcases r bs with problem | ⟨a, mid⟩
  · constructor
    · intro given
      cases given
    · rintro ⟨a, mid, given, -⟩
      cases given
  · constructor
    · intro given
      exact ⟨a, mid, rfl, given⟩
    · rintro ⟨a', mid', same, given⟩
      cases same
      exact given

theorem lift_eq_ok_iff {result : Except ReadError α} :
    lift result bs = .ok (a, rest) ↔ result = .ok a ∧ bs = rest := by
  cases result with
  | error problem =>
    constructor
    · intro given
      cases given
    · rintro ⟨given, -⟩
      cases given
  | ok found =>
    constructor
    · intro given
      cases given
      exact ⟨rfl, rfl⟩
    · rintro ⟨same, rfl⟩
      cases same
      rfl

theorem fail_eq_ok_iff {problem : ReadError} :
    (fail problem : Reader α) bs = .ok (a, rest) ↔ False := by
  constructor
  · intro given
    cases given
  · exact False.elim

end

variable {bs rest : Bytes}

theorem take_eq_ok_iff {n : Nat} {front : Bytes} :
    take n bs = .ok (front, rest) ↔ front.length = n ∧ bs = front ++ rest := by
  constructor
  · intro given
    unfold take at given
    dsimp only at given
    split at given
    · rename_i whole
      cases given
      exact ⟨whole, (List.take_append_drop n bs).symm⟩
    · cases given
  · rintro ⟨rfl, rfl⟩
    exact takes_take front rest

theorem u1_eq_ok_iff {n : UInt8} : u1 bs = .ok (n, rest) ↔ bs = n :: rest := by
  cases bs with
  | nil => simp [u1]
  | cons b tail => simp [u1]

theorem u2_eq_ok_iff {n : UInt16} :
    u2 bs = .ok (n, rest) ↔ bs = BigEndian.bytes 2 n.toNat ++ rest := by
  constructor
  · intro given
    match bs, given with
    | b₀ :: b₁ :: tail, given =>
      cases given
      have small : BigEndian.value [b₀, b₁] < 2 ^ 16 := by simpa using BigEndian.value_lt [b₀, b₁]
      have number : (BigEndian.value [b₀, b₁]).toUInt16.toNat = BigEndian.value [b₀, b₁] :=
        UInt16.toNat_ofNat_of_lt' small
      have written : BigEndian.bytes 2 (BigEndian.value [b₀, b₁]) = [b₀, b₁] :=
        BigEndian.bytes_value [b₀, b₁]
      rw [number, written]
      rfl
  · rintro rfl
    exact takes_u2 n rest

theorem u4_eq_ok_iff {n : UInt32} :
    u4 bs = .ok (n, rest) ↔ bs = BigEndian.bytes 4 n.toNat ++ rest := by
  constructor
  · intro given
    match bs, given with
    | b₀ :: b₁ :: b₂ :: b₃ :: tail, given =>
      cases given
      have small : BigEndian.value [b₀, b₁, b₂, b₃] < 2 ^ 32 := by
        simpa using BigEndian.value_lt [b₀, b₁, b₂, b₃]
      have number : (BigEndian.value [b₀, b₁, b₂, b₃]).toUInt32.toNat =
          BigEndian.value [b₀, b₁, b₂, b₃] := UInt32.toNat_ofNat_of_lt' small
      have written : BigEndian.bytes 4 (BigEndian.value [b₀, b₁, b₂, b₃]) = [b₀, b₁, b₂, b₃] :=
        BigEndian.bytes_value [b₀, b₁, b₂, b₃]
      rw [number, written]
      rfl
  · rintro rfl
    exact takes_u4 n rest

section

variable {α β : Type} {bytesOf : β → Bytes} {Holds : β → α → Prop}

/-- A reader of things that have bytes. It gives a value exactly in front of the bytes of a thing
that holds the value, and leaves what follows them. -/
def Reads (r : Reader α) (bytesOf : β → Bytes) (Holds : β → α → Prop) : Prop :=
  ∀ bs a rest, r bs = .ok (a, rest) ↔ ∃ b, Holds b a ∧ bs = bytesOf b ++ rest

theorem Reads.eq_ok_iff {r : Reader α} (reads : Reads r bytesOf Holds) {a : α} {bs rest : Bytes} :
    r bs = .ok (a, rest) ↔ ∃ b, Holds b a ∧ bs = bytesOf b ++ rest := reads bs a rest

private theorem manyFrom_eq_ok_iff {item : Nat → Reader α}
    (each : ∀ i, Reads (item i) bytesOf Holds) (n : Nat) :
    ∀ (start : Nat) (found as : List α) (bs rest : Bytes),
      manyFrom item n start found bs = .ok (as, rest) ↔
        ∃ things new, things.length = n ∧ List.Forall₂ Holds things new ∧
          as = found.reverse ++ new ∧ bs = things.flatMap bytesOf ++ rest := by
  induction n with
  | zero =>
    intro start found as bs rest
    rw [manyFrom, pure_eq_ok_iff]
    constructor
    · rintro ⟨rfl, rfl⟩
      exact ⟨[], [], rfl, .nil, by simp, rfl⟩
    · rintro ⟨things, new, none, holds, rfl, rfl⟩
      cases List.length_eq_zero_iff.mp none
      cases holds
      simp
  | succ n ih =>
    intro start found as bs rest
    rw [manyFrom, bind_eq_ok_iff]
    constructor
    · rintro ⟨a, mid, first, others⟩
      obtain ⟨b, holds, rfl⟩ := (each start bs a mid).mp first
      obtain ⟨things, new, count, all, rfl, rfl⟩ := (ih _ _ _ _ _).mp others
      refine ⟨b :: things, a :: new, ?_, .cons holds all, ?_, ?_⟩
      · rw [List.length_cons, count]
      · simp
      · simp
    · rintro ⟨things, new, count, all, rfl, rfl⟩
      cases all with
      | nil => cases count
      | @cons b a things new holds all =>
        refine ⟨a, things.flatMap bytesOf ++ rest, ?_, ?_⟩
        · exact (each start _ a _).mpr ⟨b, holds, by simp⟩
        · refine (ih _ _ _ _ _).mpr ⟨things, new, Nat.succ.inj count, all, by simp, rfl⟩

theorem many_eq_ok_iff {item : Nat → Reader α} (each : ∀ i, Reads (item i) bytesOf Holds) {n : Nat}
    {as : List α} {bs rest : Bytes} :
    many n item bs = .ok (as, rest) ↔
      ∃ things, things.length = n ∧ List.Forall₂ Holds things as ∧
        bs = things.flatMap bytesOf ++ rest := by
  rw [many, manyFrom_eq_ok_iff each n]
  constructor
  · rintro ⟨things, new, count, all, rfl, split⟩
    exact ⟨things, count, all, split⟩
  · rintro ⟨things, count, all, split⟩
    exact ⟨things, as, count, all, rfl, split⟩

end

end Reader

end JvmAssembler
