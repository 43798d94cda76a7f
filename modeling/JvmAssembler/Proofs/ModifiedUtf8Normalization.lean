import JvmAssembler.Proofs.ClassFileGrammar
import JvmAssembler.Proofs.FieldOutcome
import JvmAssembler.Proofs.ModifiedUtf8RoundTrip

/-!
# Normalization by decoding

Decoding takes more than encoding gives: units in longer forms than they need, and surrogates that
are not in a pair. What it reads is well-formed text all the same, and the encoding of that text is
never longer than the bytes it was read from. The two are equal exactly when every unit stands in
its shortest form and every surrogate in a pair. So a text that was read from a class file always
fits when it is written.
-/

set_option autoImplicit false
set_option relaxedAutoImplicit false

namespace JvmAssembler.ModifiedUtf8

open Utf8 (isContinuation isContinuation_iff payload toNat_ofNat_of_valid toUInt8_eq_of_toNat)

section EncodeUnit

variable {unit : Nat}

private theorem length_encodeUnit (unit : Nat) :
    (encodeUnit unit).length =
      if unit = 0 then 2 else if unit < 0x80 then 1 else if unit < 0x800 then 2 else 3 := by
  unfold encodeUnit
  split_ifs <;> rfl

private theorem encodeUnit_one (positive : 0 < unit) (low : unit < 0x80) :
    encodeUnit unit = [unit.toUInt8] := by
  rw [encodeUnit, if_neg (by omega), if_pos low]

private theorem encodeUnit_two (large : 0x80 ≤ unit) (low : unit < 0x800) :
    encodeUnit unit = [(0xC0 + unit / 64).toUInt8, (0x80 + unit % 64).toUInt8] := by
  rw [encodeUnit, if_neg (by omega), if_neg (by omega), if_pos low]

private theorem encodeUnit_three (large : 0x800 ≤ unit) :
    encodeUnit unit =
      [(0xE0 + unit / 4096).toUInt8, (0x80 + unit / 64 % 64).toUInt8,
        (0x80 + unit % 64).toUInt8] := by
  rw [encodeUnit, if_neg (by omega), if_neg (by omega), if_neg (by omega)]

end EncodeUnit

inductive Form where
  | one (b : UInt8) (fits : 0 < b.toNat ∧ b.toNat < 0x80)
  | two (b₀ b₁ : UInt8) (lead : 0xC0 ≤ b₀.toNat ∧ b₀.toNat < 0xE0)
    (tail : isContinuation b₁ = true)
  | three (b₀ b₁ b₂ : UInt8) (lead : 0xE0 ≤ b₀.toNat ∧ b₀.toNat < 0xF0)
    (tail₁ : isContinuation b₁ = true) (tail₂ : isContinuation b₂ = true)

namespace Form

def bytes : Form → Bytes
  | one b _ => [b]
  | two b₀ b₁ _ _ => [b₀, b₁]
  | three b₀ b₁ b₂ _ _ _ => [b₀, b₁, b₂]

def unit : Form → Nat
  | one b _ => b.toNat
  | two b₀ b₁ _ _ => b₀.toNat % 32 * 64 + payload b₁
  | three b₀ b₁ b₂ _ _ _ => b₀.toNat % 16 * 4096 + payload b₁ * 64 + payload b₂

def least : Form → Nat
  | one _ _ => 0
  | two _ _ _ _ => 0x80
  | three _ _ _ _ _ _ => 0x800

def IsOverlong (f : Form) : Prop := f.unit < f.least

private theorem unit_lt (f : Form) : f.unit < 65536 := by
  cases f with
  | one b fits =>
    simp only [unit]
    omega
  | two b₀ b₁ lead tail =>
    simp only [unit, payload]
    omega
  | three b₀ b₁ b₂ lead tail₁ tail₂ =>
    simp only [unit, payload]
    omega

private theorem length_encodeUnit_le (f : Form) : (encodeUnit f.unit).length ≤ f.bytes.length := by
  rw [length_encodeUnit]
  cases f with
  | one b fits =>
    have low : b.toNat ≠ 0 ∧ b.toNat < 0x80 := by omega
    simp [unit, bytes, low]
  | two b₀ b₁ lead tail =>
    have low : (two b₀ b₁ lead tail).unit < 0x800 := by
      simp only [unit, payload]
      omega
    simp only [low, if_true]
    split_ifs <;> simp [bytes]
  | three b₀ b₁ b₂ lead tail₁ tail₂ =>
    split_ifs <;> simp [bytes]

private theorem eq_of_length_encodeUnit {f : Form}
    (same : (encodeUnit f.unit).length = f.bytes.length) (long : f.IsOverlong) :
    f.bytes = [0xC0, 0x80] := by
  rw [length_encodeUnit] at same
  cases f with
  | one b fits => exact absurd long (Nat.not_lt_zero _)
  | two b₀ b₁ lead tail =>
    have small : (two b₀ b₁ lead tail).unit < 0x80 := long
    simp only [small, if_true] at same
    split_ifs at same with nul
    · rw [isContinuation_iff] at tail
      simp only [unit, payload] at nul
      have first : b₀ = 0xC0 := UInt8.toNat_inj.mp (by simp only [UInt8.reduceToNat]; omega)
      have second : b₁ = 0x80 := UInt8.toNat_inj.mp (by simp only [UInt8.reduceToNat]; omega)
      rw [bytes, first, second]
    · cases same
  | three b₀ b₁ b₂ lead tail₁ tail₂ =>
    have small : (three b₀ b₁ b₂ lead tail₁ tail₂).unit < 0x800 := long
    simp only [small, if_true] at same
    split_ifs at same <;> cases same

private theorem encodeUnit_unit {f : Form} (shortest : f.IsOverlong → f.bytes = [0xC0, 0x80]) :
    encodeUnit f.unit = f.bytes := by
  cases f with
  | one b fits =>
    have own : b.toNat.toUInt8 = b := toUInt8_eq_of_toNat rfl
    change encodeUnit b.toNat = [b]
    rw [encodeUnit_one fits.1 fits.2, own]
  | two b₀ b₁ lead tail =>
    by_cases long : (two b₀ b₁ lead tail).IsOverlong
    · have nul := shortest long
      simp only [bytes, List.cons.injEq, and_true] at nul
      obtain ⟨rfl, rfl⟩ := nul
      rfl
    · rw [isContinuation_iff] at tail
      have large : 0x80 ≤ b₀.toNat % 32 * 64 + b₁.toNat % 64 := Nat.le_of_not_lt long
      change encodeUnit (b₀.toNat % 32 * 64 + b₁.toNat % 64) = [b₀, b₁]
      rw [encodeUnit_two large (by omega), toUInt8_eq_of_toNat (b := b₀) (by omega),
        toUInt8_eq_of_toNat (b := b₁) (by omega)]
  | three b₀ b₁ b₂ lead tail₁ tail₂ =>
    by_cases long : (three b₀ b₁ b₂ lead tail₁ tail₂).IsOverlong
    · have nul := congrArg List.length (shortest long)
      cases nul
    · rw [isContinuation_iff] at tail₁ tail₂
      have large : 0x800 ≤ b₀.toNat % 16 * 4096 + b₁.toNat % 64 * 64 + b₂.toNat % 64 :=
        Nat.le_of_not_lt long
      change encodeUnit (b₀.toNat % 16 * 4096 + b₁.toNat % 64 * 64 + b₂.toNat % 64) = [b₀, b₁, b₂]
      rw [encodeUnit_three large, toUInt8_eq_of_toNat (b := b₀) (by omega),
        toUInt8_eq_of_toNat (b := b₁) (by omega), toUInt8_eq_of_toNat (b := b₂) (by omega)]

private theorem decodeUnitsFrom_bytes (f : Form) (offset : Nat) (found : List Nat) (rest : Bytes) :
    decodeUnitsFrom offset found (f.bytes ++ rest) =
      decodeUnitsFrom (offset + f.bytes.length) (f.unit :: found) rest := by
  cases f with
  | one b fits => exact decodeUnitsFrom_one b fits.1 fits.2 offset found rest
  | two b₀ b₁ lead tail => exact decodeUnitsFrom_two b₀ b₁ lead tail offset found rest
  | three b₀ b₁ b₂ lead tail₁ tail₂ =>
    exact decodeUnitsFrom_three b₀ b₁ b₂ lead tail₁ tail₂ offset found rest

end Form

section Forms

variable {bytes : Bytes} {units : List Nat} {forms : List Form}

private theorem exists_cons (f : Form) {found : List Nat} {rest : Bytes}
    (later : ∃ forms : List Form, forms.flatMap Form.bytes = rest ∧
      (f.unit :: found).reverse ++ forms.map Form.unit = units) :
    ∃ forms : List Form, forms.flatMap Form.bytes = f.bytes ++ rest ∧
      found.reverse ++ forms.map Form.unit = units := by
  obtain ⟨forms, rfl, rfl⟩ := later
  exact ⟨f :: forms, List.flatMap_cons, by simp⟩

private theorem exists_forms {offset : Nat} {found : List Nat}
    (decoded : decodeUnitsFrom offset found bytes = .ok units) :
    ∃ forms : List Form, forms.flatMap Form.bytes = bytes ∧
      found.reverse ++ forms.map Form.unit = units := by
  fun_induction decodeUnitsFrom offset found bytes with
  | case1 offset found =>
    cases decoded
    exact ⟨[], rfl, List.append_nil _⟩
  | case3 offset found b t low notNul ih =>
    have positive : b.toNat ≠ 0 := fun zero => notNul (UInt8.toNat_inj.mp zero)
    simp only [UInt8.lt_iff_toNat_lt, UInt8.reduceToNat] at low
    exact exists_cons (.one b ⟨by omega, low⟩) (ih decoded)
  | case7 offset found b₀ low lead b₁ t tail two ih =>
    simp only [UInt8.lt_iff_toNat_lt, UInt8.le_iff_toNat_le, UInt8.reduceToNat] at low lead two
    rw [Bool.not_eq_true', Bool.not_eq_false] at tail
    exact exists_cons (.two b₀ b₁ ⟨by omega, two⟩ tail) (ih decoded)
  | case10 offset found b₀ low lead b₁ tail₁ two b₂ t tail₂ ih =>
    simp only [UInt8.lt_iff_toNat_lt, UInt8.le_iff_toNat_le, UInt8.reduceToNat] at low lead two
    rw [Bool.not_eq_true', Bool.not_eq_false] at tail₁ tail₂
    exact exists_cons (.three b₀ b₁ b₂ ⟨by omega, by omega⟩ tail₁ tail₂) (ih decoded)
  | _ => cases decoded

private theorem decodeUnitsFrom_forms (forms : List Form) (offset : Nat) (found : List Nat) :
    decodeUnitsFrom offset found (forms.flatMap Form.bytes) =
      .ok (found.reverse ++ forms.map Form.unit) := by
  induction forms generalizing offset found with
  | nil => simp [decodeUnitsFrom]
  | cons f forms ih =>
    rw [List.flatMap_cons, f.decodeUnitsFrom_bytes, ih]
    simp

private theorem decodeUnits_eq_ok_iff :
    decodeUnits bytes = .ok units ↔
      ∃ forms : List Form, forms.flatMap Form.bytes = bytes ∧ forms.map Form.unit = units := by
  constructor
  · exact exists_forms
  · rintro ⟨forms, rfl, rfl⟩
    exact decodeUnitsFrom_forms forms 0 []

private theorem length_flatMap_encodeUnit_le (forms : List Form) :
    ((forms.map Form.unit).flatMap encodeUnit).length ≤ (forms.flatMap Form.bytes).length := by
  induction forms with
  | nil => exact Nat.le_refl 0
  | cons f forms ih =>
    have first := f.length_encodeUnit_le
    simp only [List.map_cons, List.flatMap_cons, List.length_append]
    omega

private theorem flatMap_encodeUnit_units
    (shortest : ∀ f ∈ forms, f.IsOverlong → f.bytes = [0xC0, 0x80]) :
    (forms.map Form.unit).flatMap encodeUnit = forms.flatMap Form.bytes := by
  rw [List.flatMap_map, List.flatMap_def, List.flatMap_def]
  congr 1
  exact List.map_congr_left fun f member => Form.encodeUnit_unit (shortest f member)

private theorem shortest_of_flatMap_encodeUnit
    (same : (forms.map Form.unit).flatMap encodeUnit = forms.flatMap Form.bytes) :
    ∀ f ∈ forms, f.IsOverlong → f.bytes = [0xC0, 0x80] := by
  -- Only the lengths matter: no form is shorter than what encoding makes of it.
  have lengths := congrArg List.length same
  clear same
  induction forms with
  | nil =>
    intro f member
    cases member
  | cons g forms ih =>
    have first := g.length_encodeUnit_le
    have others := length_flatMap_encodeUnit_le forms
    simp only [List.map_cons, List.flatMap_cons, List.length_append] at lengths
    intro f member
    rcases List.mem_cons.mp member with rfl | later
    · exact Form.eq_of_length_encodeUnit (by omega)
    · exact ih (by omega) f later

end Forms

inductive Paired : List Nat → Prop where
  | nil : Paired []
  | basic {unit : Nat} {rest : List Nat} (notHigh : isHigh unit = false)
    (notLow : isLow unit = false) (later : Paired rest) : Paired (unit :: rest)
  | pair {high low : Nat} {rest : List Nat} (isHigh : isHigh high = true)
    (isLow : isLow low = true) (later : Paired rest) : Paired (high :: low :: rest)

section Units

variable {units : List Nat}

private theorem charsFrom_pair {high low : Nat} (first : isHigh high = true)
    (second : isLow low = true) (found : List Char) (rest : List Nat) :
    charsFrom found (high :: low :: rest) =
      charsFrom (Char.ofNat (0x10000 + (high - 0xD800) * 1024 + (low - 0xDC00)) :: found) rest := by
  simp [charsFrom, first, second]

/-- Induction over units by the characters that reading finds in them: a unit on its own, a pair,
or a surrogate that stands outside one. -/
@[elab_as_elim]
private theorem units_induction {P : List Nat → Prop} (nil : P [])
    (basic : ∀ (unit : Nat) (rest : List Nat), isHigh unit = false → isLow unit = false →
      P rest → P (unit :: rest))
    (pair : ∀ (high low : Nat) (rest : List Nat), isHigh high = true → isLow low = true →
      P rest → P (high :: low :: rest))
    (lone : ∀ (unit : Nat) (rest : List Nat), (isHigh unit || isLow unit) = true →
      (∀ found, charsFrom found (unit :: rest) = charsFrom (Char.ofNat 0xFFFD :: found) rest) →
      P rest → P (unit :: rest))
    (units : List Nat) : P units := by
  -- On the length, since a pair takes two units at once.
  suffices bounded : ∀ (n : Nat) (units : List Nat), units.length ≤ n → P units from
    bounded units.length units (Nat.le_refl _)
  intro n
  induction n with
  | zero =>
    intro units short
    rw [List.eq_nil_of_length_eq_zero (Nat.le_zero.mp short)]
    exact nil
  | succ n ih =>
    intro units short
    match units, short with
    | [], _ => exact nil
    | [unit], _ =>
      by_cases surrogate : (isHigh unit || isLow unit) = true
      · exact lone unit [] surrogate (fun found => by simp [charsFrom, surrogate]) nil
      · rw [Bool.not_eq_true, Bool.or_eq_false_iff] at surrogate
        exact basic unit [] surrogate.1 surrogate.2 nil
    | unit :: next :: rest, short =>
      simp only [List.length_cons] at short
      by_cases both : (isHigh unit && isLow next) = true
      · rw [Bool.and_eq_true] at both
        exact pair unit next rest both.1 both.2 (ih rest (by omega))
      · have later : P (next :: rest) := ih (next :: rest) (by simp only [List.length_cons]; omega)
        by_cases surrogate : (isHigh unit || isLow unit) = true
        · refine lone unit (next :: rest) surrogate (fun found => ?_) later
          simp only [charsFrom, both, surrogate, Bool.false_eq_true, if_false, if_true]
        · rw [Bool.not_eq_true, Bool.or_eq_false_iff] at surrogate
          exact basic unit (next :: rest) surrogate.1 surrogate.2 later

private theorem charsFrom_eq_append (found : List Char) (units : List Nat) :
    charsFrom found units = found.reverse ++ charsFrom [] units := by
  induction units using units_induction generalizing found with
  | nil => simp [charsFrom]
  | basic unit rest notHigh notLow ih =>
    rw [charsFrom_basic notHigh notLow, charsFrom_basic notHigh notLow, ih, ih [_]]
    simp
  | pair high low rest first second ih =>
    rw [charsFrom_pair first second, charsFrom_pair first second, ih, ih [_]]
    simp
  | lone unit rest surrogate read ih =>
    rw [read, read, ih, ih [_]]
    simp

private theorem not_surrogate_iff {unit : Nat} :
    isHigh unit = false ∧ isLow unit = false ↔ unit < 0xD800 ∨ 0xE000 ≤ unit := by
  simp only [isHigh, isLow, Bool.and_eq_false_iff, decide_eq_false_iff_not]
  omega

private theorem isHigh_iff {unit : Nat} : isHigh unit = true ↔ 0xD800 ≤ unit ∧ unit < 0xDC00 := by
  simp [isHigh]

private theorem isLow_iff {unit : Nat} : isLow unit = true ↔ 0xDC00 ≤ unit ∧ unit < 0xE000 := by
  simp [isLow]

private theorem unitsOf_basic {c : Char} (basic : c.toNat < 0x10000) : unitsOf c = [c.toNat] :=
  if_pos basic

private theorem unitsOf_pair {c : Char} (large : 0x10000 ≤ c.toNat) :
    unitsOf c =
      [0xD800 + (c.toNat - 0x10000) / 1024, 0xDC00 + (c.toNat - 0x10000) % 1024] :=
  if_neg (Nat.not_lt.mpr large)

private theorem unitsOf_ofNat_basic {unit : Nat} (small : unit < 65536)
    (notHigh : isHigh unit = false) (notLow : isLow unit = false) :
    unitsOf (Char.ofNat unit) = [unit] := by
  have range := not_surrogate_iff.mp ⟨notHigh, notLow⟩
  have valid : unit.isValidChar := by
    rcases range with low | high
    · exact Or.inl low
    · exact Or.inr ⟨by omega, by omega⟩
  rw [unitsOf_basic (by rw [toNat_ofNat_of_valid valid]; exact small), toNat_ofNat_of_valid valid]

private theorem unitsOf_ofNat_pair {high low : Nat} (first : isHigh high = true)
    (second : isLow low = true) :
    unitsOf (Char.ofNat (0x10000 + (high - 0xD800) * 1024 + (low - 0xDC00))) = [high, low] := by
  rw [isHigh_iff] at first
  rw [isLow_iff] at second
  have valid : (0x10000 + (high - 0xD800) * 1024 + (low - 0xDC00)).isValidChar :=
    Or.inr ⟨by omega, by omega⟩
  have point := toNat_ofNat_of_valid valid
  have first_eq :
      0xD800 + (0x10000 + (high - 0xD800) * 1024 + (low - 0xDC00) - 0x10000) / 1024 = high := by
    omega
  have second_eq :
      0xDC00 + (0x10000 + (high - 0xD800) * 1024 + (low - 0xDC00) - 0x10000) % 1024 = low := by
    omega
  rw [unitsOf_pair (by rw [point]; omega), point, first_eq, second_eq]

private theorem length_encodeUnit_surrogate {unit : Nat}
    (surrogate : (isHigh unit || isLow unit) = true) : (encodeUnit unit).length = 3 := by
  rw [Bool.or_eq_true, isHigh_iff, isLow_iff] at surrogate
  rw [encodeUnit_three (by omega)]
  rfl

private theorem length_encode_charsFrom (small : ∀ u ∈ units, u < 65536) :
    (((charsFrom [] units).flatMap unitsOf).flatMap encodeUnit).length =
      (units.flatMap encodeUnit).length := by
  induction units using units_induction with
  | nil => rfl
  | basic unit rest notHigh notLow ih =>
    obtain ⟨own, later⟩ := List.forall_mem_cons.mp small
    rw [charsFrom_basic notHigh notLow, charsFrom_eq_append]
    simp [unitsOf_ofNat_basic own notHigh notLow, ih later]
  | pair high low rest first second ih =>
    have later := (List.forall_mem_cons.mp (List.forall_mem_cons.mp small).2).2
    rw [charsFrom_pair first second, charsFrom_eq_append]
    simp [unitsOf_ofNat_pair first second, ih later]
  | lone unit rest surrogate read ih =>
    obtain ⟨-, later⟩ := List.forall_mem_cons.mp small
    have replaced : unitsOf (Char.ofNat 0xFFFD) = [0xFFFD] := by decide
    have three : (encodeUnit 0xFFFD).length = 3 := by decide
    rw [read, charsFrom_eq_append]
    simp [replaced, three, length_encodeUnit_surrogate surrogate, ih later]

private theorem Paired.flatMap_unitsOf (paired : Paired units) (small : ∀ u ∈ units, u < 65536) :
    (charsFrom [] units).flatMap unitsOf = units := by
  induction paired with
  | nil => rfl
  | basic notHigh notLow _ ih =>
    obtain ⟨own, later⟩ := List.forall_mem_cons.mp small
    rw [charsFrom_basic notHigh notLow, charsFrom_eq_append]
    simp [unitsOf_ofNat_basic own notHigh notLow, ih later]
  | pair first second _ ih =>
    have later := (List.forall_mem_cons.mp (List.forall_mem_cons.mp small).2).2
    rw [charsFrom_pair first second, charsFrom_eq_append]
    simp [unitsOf_ofNat_pair first second, ih later]

private theorem paired_flatMap_unitsOf (cs : List Char) : Paired (cs.flatMap unitsOf) := by
  induction cs with
  | nil => exact .nil
  | cons c cs ih =>
    have valid := toNat_valid c
    rw [List.flatMap_cons]
    by_cases basic : c.toNat < 0x10000
    · have range : c.toNat < 0xD800 ∨ 0xE000 ≤ c.toNat := by omega
      obtain ⟨notHigh, notLow⟩ := not_surrogate_iff.mpr range
      rw [unitsOf_basic basic]
      exact .basic notHigh notLow ih
    · rw [unitsOf_pair (Nat.le_of_not_lt basic)]
      exact .pair (isHigh_iff.mpr (by omega)) (isLow_iff.mpr (by omega)) ih

end Units

/-- The forms that encoding uses: every unit in its shortest form, NUL apart, which takes two bytes,
and every surrogate in a pair. -/
structure IsCanonical (forms : List Form) : Prop where
  shortest : ∀ f ∈ forms, f.IsOverlong → f.bytes = [0xC0, 0x80]
  paired : Paired (forms.map Form.unit)

section Normalization

variable {bytes : Bytes} {text : Text} {forms : List Form}

private theorem forall_map_unit_lt (forms : List Form) : ∀ u ∈ forms.map Form.unit, u < 65536 := by
  intro u member
  obtain ⟨f, -, rfl⟩ := List.mem_map.mp member
  exact f.unit_lt

private theorem decode_eq_ok_iff :
    decode bytes = .ok text ↔
      ∃ units, decodeUnits bytes = .ok units ∧ Utf8.encode (charsFrom [] units) = text := by
  rw [decode]
  rcases decodeUnits bytes with problem | units
  · simp [Except.map]
  · simp [Except.map]

private theorem encode_of_forms (spelled : forms.flatMap Form.bytes = bytes)
    (decoded : decode bytes = .ok text) :
    encode text = ((charsFrom [] (forms.map Form.unit)).flatMap unitsOf).flatMap encodeUnit := by
  obtain ⟨units, read, rfl⟩ := decode_eq_ok_iff.mp decoded
  have same := decodeUnits_eq_ok_iff.mpr ⟨forms, spelled, rfl⟩
  rw [read] at same
  cases same
  rw [encode_eq_flatMap_units, Utf8.chars_encode]

private theorem length_encode_le (decoded : decode bytes = .ok text) :
    (encode text).length ≤ bytes.length := by
  obtain ⟨units, read, -⟩ := decode_eq_ok_iff.mp decoded
  obtain ⟨forms, spelled, -⟩ := decodeUnits_eq_ok_iff.mp read
  rw [encode_of_forms spelled decoded, length_encode_charsFrom (forall_map_unit_lt forms),
    ← spelled]
  exact length_flatMap_encodeUnit_le forms

private theorem isValid_of_decode (decoded : decode bytes = .ok text) :
    Utf8.isValid text = true := by
  obtain ⟨units, -, same⟩ := decode_eq_ok_iff.mp decoded
  exact Utf8.isValid_iff.mpr ⟨_, same⟩

private theorem encode_eq_iff_isCanonical (spelled : forms.flatMap Form.bytes = bytes)
    (decoded : decode bytes = .ok text) : encode text = bytes ↔ IsCanonical forms := by
  have again := encode_of_forms spelled decoded
  constructor
  · intro same
    -- The bytes are both the forms and the encoding of paired units, so their units are the same.
    have small : ∀ u ∈ (charsFrom [] (forms.map Form.unit)).flatMap unitsOf, u < 65536 := by
      intro u member
      obtain ⟨c, -, own⟩ := List.mem_flatMap.mp member
      exact unitsOf_lt c u own
    have encoded := decodeUnits_flatMap_encodeUnit small
    rw [← again, same, decodeUnits_eq_ok_iff.mpr ⟨forms, spelled, rfl⟩] at encoded
    injection encoded with units
    refine ⟨?_, ?_⟩
    · apply shortest_of_flatMap_encodeUnit
      rw [spelled, ← same, again, ← units]
    · rw [units]
      exact paired_flatMap_unitsOf _
  · intro canonical
    rw [again, canonical.paired.flatMap_unitsOf (forall_map_unit_lt forms),
      flatMap_encodeUnit_units canonical.shortest, spelled]

end Normalization

end JvmAssembler.ModifiedUtf8

namespace JvmAssembler

private theorem RawEntry.mem_of_mem_uses {raw : List RawEntry} {e : RawEntry} {s : Symbol}
    {text : Text} (member : e ∈ raw) (means : e.Means raw s) (used : .utf8 text ∈ s.uses) :
    RawEntry.utf8 text ∈ raw := by
  cases e with
  | utf8 own =>
    cases means
    cases List.mem_singleton.mp used
    exact member
  | integer value =>
    cases means
    cases List.mem_singleton.mp used
  | classRef i | string i =>
    obtain ⟨n, place, rfl⟩ := means
    simp only [Symbol.uses, List.mem_cons, List.not_mem_nil, Symbol.utf8.injEq, reduceCtorEq,
      or_false] at used
    exact used ▸ place.mem
  | nameAndType i j =>
    obtain ⟨n, d, named, described, rfl⟩ := means
    simp only [Symbol.uses, List.mem_cons, List.not_mem_nil, Symbol.utf8.injEq, reduceCtorEq,
      or_false] at used
    rcases used with rfl | rfl
    · exact named.mem
    · exact described.mem
  | fieldRef i j | methodRef i j =>
    obtain ⟨o, n, d, ⟨_, _, owned⟩, ⟨_, _, _, named, described⟩, rfl⟩ := means
    simp only [Symbol.uses, List.mem_cons, List.not_mem_nil, Symbol.utf8.injEq, reduceCtorEq,
      or_false, false_or] at used
    rcases used with rfl | rfl | rfl
    · exact owned.mem
    · exact named.mem
    · exact described.mem

namespace ClassFile

private theorem exists_decode_of_parse {bytes : Bytes} {f : ClassFile}
    (parsed : parse bytes = .ok f)
    {s : Symbol} (member : s ∈ f.pool) {text : Text} (used : .utf8 text ∈ s.uses) :
    ∃ body, body.length ≤ 65535 ∧ ModifiedUtf8.decode body = .ok text := by
  obtain ⟨l, ⟨-, holds⟩, -⟩ := reads_read.eq_ok_iff.mp (parse_eq_ok_iff.mp parsed)
  obtain ⟨e, inRaw, means⟩ : ∃ e ∈ l.pool.raw, e.Means l.pool.raw s := by
    obtain ⟨k, inPool, rfl⟩ := List.mem_iff_getElem.mp (Array.mem_toList_iff.mpr member)
    have inRaw : k < l.pool.raw.length := by
      rw [List.Forall₂.length_eq holds.pool]
      exact inPool
    exact ⟨_, List.getElem_mem inRaw, (List.forall₂_iff_get.mp holds.pool).2 k inRaw inPool⟩
  obtain ⟨⟨e, bytes, written⟩, -, rfl⟩ :=
    List.mem_map.mp (RawEntry.mem_of_mem_uses inRaw means used)
  cases written with
  | @utf8 _ body fits decoded => exact ⟨body, fits, decoded⟩

private theorem exists_entryBytes_utf8 (x : PoolIndex) {text : Text}
    (valid : Utf8.isValid text = true) (fits : (ModifiedUtf8.encode text).length ≤ 65535) :
    ∃ bytes, entryBytes x (.utf8 text) = .ok bytes := by
  obtain ⟨body, given, fit⟩ : ∃ body, bodyFields x (.utf8 text) = .ok body ∧
      ∀ f ∈ body, f.fits = true := ⟨_, if_pos valid, by simp [fits]⟩
  have all : ∀ f ∈ u1 "tag" Tag.utf8.byte.toNat :: body, f.fits = true :=
    List.forall_mem_cons.mpr ⟨by simp [Tag.utf8], fit⟩
  have whole : entryBytes x (.utf8 text) =
      Field.encodeAll (u1 "tag" Tag.utf8.byte.toNat :: body) := by
    rw [entryBytes, given]
    rfl
  exact ⟨_, whole.trans (Field.encodeAll_of_fits all)⟩

end ClassFile

namespace ModifiedUtf8

/-- Decoding normalizes. Whatever bytes it accepts, the text is well-formed, its encoding is no
longer than the bytes and decodes to it again, and is the bytes themselves exactly when these are in
the forms that encoding uses. Every text in a class file that was read can be written. -/
theorem decode_normalizes :
    (∀ (bytes : Bytes) (text : Text), decode bytes = .ok text →
      Utf8.isValid text = true ∧ (encode text).length ≤ bytes.length ∧
        decode (encode text) = .ok text ∧
        (∃ forms : List Form, forms.flatMap Form.bytes = bytes) ∧
        ∀ forms : List Form, forms.flatMap Form.bytes = bytes →
          (encode text = bytes ↔ IsCanonical forms)) ∧
      ∀ (bytes : Bytes) (f : ClassFile), ClassFile.parse bytes = .ok f →
        ∀ s ∈ f.pool, ∀ text, .utf8 text ∈ s.uses →
          ∀ x, ∃ written, ClassFile.entryBytes x (.utf8 text) = .ok written := by
  constructor
  · intro bytes text decoded
    have valid := isValid_of_decode decoded
    obtain ⟨units, read, -⟩ := decode_eq_ok_iff.mp decoded
    obtain ⟨forms, spelled, -⟩ := decodeUnits_eq_ok_iff.mp read
    exact ⟨valid, length_encode_le decoded, decode_encode_of_valid valid, ⟨forms, spelled⟩,
      fun _ spelled => encode_eq_iff_isCanonical spelled decoded⟩
  · intro bytes f parsed s member text used x
    obtain ⟨body, fits, decoded⟩ := ClassFile.exists_decode_of_parse parsed member used
    have shorter := length_encode_le decoded
    exact ClassFile.exists_entryBytes_utf8 x (isValid_of_decode decoded) (by omega)

def looseBytes : Bytes := [0xC0, 0x80, 0xC1, 0x81, 0xED, 0xA0, 0x80]

def looseFile : Bytes :=
  [0xCA, 0xFE, 0xBA, 0xBE, 0x00, 0x00, 0x00, 0x34, 0x00, 0x03, 0x01, 0x00, 0x07] ++ looseBytes ++
    [0x07, 0x00, 0x01, 0x00, 0x21, 0x00, 0x02, 0x00, 0x02] ++ List.replicate 8 0x00

def looseText : Text := [0x00, 0x41, 0xEF, 0xBF, 0xBD]

def looseForms : List Form :=
  [.two 0xC0 0x80 (by decide) (by decide), .two 0xC1 0x81 (by decide) (by decide),
    .three 0xED 0xA0 0x80 (by decide) (by decide) (by decide)]

theorem decode_normalizes_looseFile :
    decode looseBytes = .ok looseText ∧ encode looseText = [0xC0, 0x80, 0x41, 0xEF, 0xBF, 0xBD] ∧
      Utf8.isValid looseText = true ∧ (encode looseText).length ≤ looseBytes.length ∧
      decode (encode looseText) = .ok looseText ∧ ¬ IsCanonical looseForms ∧
      ∃ f, ClassFile.parse looseFile = .ok f ∧ Symbol.classRef looseText ∈ f.pool ∧
        ∀ x, ∃ written, ClassFile.entryBytes x (.utf8 looseText) = .ok written := by
  have decoded : decode looseBytes = .ok looseText := by decide
  have named : (ClassFile.parse looseFile).toOption.any
      (·.pool.contains (.classRef looseText)) = true := by decide +kernel
  obtain ⟨bytes, files⟩ := decode_normalizes
  obtain ⟨valid, shorter, again, -, canonical⟩ := bytes looseBytes looseText decoded
  have changed : encode looseText ≠ looseBytes := by decide
  refine ⟨decoded, by decide, valid, shorter, again, ?_, ?_⟩
  · exact fun forms => changed ((canonical looseForms rfl).mpr forms)
  rcases parsed : ClassFile.parse looseFile with problem | f
  · rw [parsed] at named
    cases named
  · rw [parsed] at named
    have member : Symbol.classRef looseText ∈ f.pool := by simpa [Except.toOption] using named
    exact ⟨f, rfl, member, files looseFile f parsed _ member looseText (by simp [Symbol.uses])⟩

end ModifiedUtf8

end JvmAssembler
