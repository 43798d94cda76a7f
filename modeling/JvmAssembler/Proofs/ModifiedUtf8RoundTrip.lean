import JvmAssembler.Proofs.Utf8Runes
import JvmAssembler.Text.ModifiedUtf8

/-!
# Modified UTF-8 round trip

Decoding a well-formed text's encoding gives the text back: bytes to units, units to characters,
characters to bytes, each step undone by itself. The encoding of any text holds neither a zero byte
nor a byte from 0xF0 on.
-/

set_option autoImplicit false
set_option relaxedAutoImplicit false

namespace JvmAssembler.ModifiedUtf8

open Utf8 (isContinuation isContinuation_toUInt8 payload toNat_toUInt8)

theorem decodeUnitsFrom_one (b : UInt8) (positive : 0 < b.toNat) (low : b.toNat < 128)
    (offset : Nat) (found : List Nat) (rest : Bytes) :
    decodeUnitsFrom offset found (b :: rest) =
      decodeUnitsFrom (offset + 1) (b.toNat :: found) rest := by
  have isLow : b < 0x80 := by simpa [UInt8.lt_iff_toNat_lt] using low
  have notNul : b ≠ 0 := by
    rintro rfl
    simp at positive
  rw [decodeUnitsFrom.eq_def]
  simp only [isLow, notNul, if_true, if_false]

theorem decodeUnitsFrom_two (b₀ b₁ : UInt8) (lead : 192 ≤ b₀.toNat ∧ b₀.toNat < 224)
    (tail : isContinuation b₁ = true) (offset : Nat) (found : List Nat) (rest : Bytes) :
    decodeUnitsFrom offset found (b₀ :: b₁ :: rest) =
      decodeUnitsFrom (offset + 2) ((b₀.toNat % 32 * 64 + payload b₁) :: found) rest := by
  have notLow : ¬ b₀ < 0x80 := by simp only [UInt8.lt_iff_toNat_lt, UInt8.reduceToNat]; omega
  have isLead : ¬ (b₀ < 0xC0 ∨ 0xF0 ≤ b₀) := by
    simp only [UInt8.lt_iff_toNat_lt, UInt8.le_iff_toNat_le, UInt8.reduceToNat]
    omega
  have two : b₀ < 0xE0 := by simp only [UInt8.lt_iff_toNat_lt, UInt8.reduceToNat]; omega
  rw [decodeUnitsFrom.eq_def]
  simp only [notLow, isLead, two, tail, Bool.not_true, Bool.false_eq_true, if_false, if_true]

theorem decodeUnitsFrom_three (b₀ b₁ b₂ : UInt8)
    (lead : 224 ≤ b₀.toNat ∧ b₀.toNat < 240) (tail₁ : isContinuation b₁ = true)
    (tail₂ : isContinuation b₂ = true) (offset : Nat) (found : List Nat) (rest : Bytes) :
    decodeUnitsFrom offset found (b₀ :: b₁ :: b₂ :: rest) =
      decodeUnitsFrom (offset + 3)
        ((b₀.toNat % 16 * 4096 + payload b₁ * 64 + payload b₂) :: found) rest := by
  have notLow : ¬ b₀ < 0x80 := by simp only [UInt8.lt_iff_toNat_lt, UInt8.reduceToNat]; omega
  have isLead : ¬ (b₀ < 0xC0 ∨ 0xF0 ≤ b₀) := by
    simp only [UInt8.lt_iff_toNat_lt, UInt8.le_iff_toNat_le, UInt8.reduceToNat]
    omega
  have three : ¬ b₀ < 0xE0 := by simp only [UInt8.lt_iff_toNat_lt, UInt8.reduceToNat]; omega
  rw [decodeUnitsFrom.eq_def]
  simp only [notLow, isLead, three, tail₁, tail₂, Bool.not_true, Bool.false_eq_true, if_false]

private theorem decodeUnitsFrom_encodeUnit {unit : Nat} (small : unit < 65536) (offset : Nat)
    (found : List Nat) (rest : Bytes) :
    decodeUnitsFrom offset found (encodeUnit unit ++ rest) =
      decodeUnitsFrom (offset + (encodeUnit unit).length) (unit :: found) rest := by
  unfold encodeUnit
  split_ifs with nul one two
  · subst nul
    exact decodeUnitsFrom_two 0xC0 0x80 (by decide) (by decide) offset found rest
  · have value := toNat_toUInt8 unit (by omega)
    have step := decodeUnitsFrom_one unit.toUInt8 (by omega) (by omega) offset found rest
    rw [value] at step
    exact step
  · have value := toNat_toUInt8 (0xC0 + unit / 64) (by omega)
    have tail := toNat_toUInt8 (0x80 + unit % 64) (by omega)
    have step := decodeUnitsFrom_two (0xC0 + unit / 64).toUInt8
      (0x80 + unit % 64).toUInt8 (by omega)
      (isContinuation_toUInt8 (by omega) (by omega)) offset found rest
    rw [payload, value, tail] at step
    have whole : (0xC0 + unit / 64) % 32 * 64 + (0x80 + unit % 64) % 64 = unit := by omega
    rw [whole] at step
    exact step
  · have value := toNat_toUInt8 (0xE0 + unit / 4096) (by omega)
    have tail₁ := toNat_toUInt8 (0x80 + unit / 64 % 64) (by omega)
    have tail₂ := toNat_toUInt8 (0x80 + unit % 64) (by omega)
    have step := decodeUnitsFrom_three (0xE0 + unit / 4096).toUInt8
      (0x80 + unit / 64 % 64).toUInt8 (0x80 + unit % 64).toUInt8 (by omega)
      (isContinuation_toUInt8 (by omega) (by omega))
      (isContinuation_toUInt8 (by omega) (by omega)) offset found rest
    rw [payload, payload, value, tail₁, tail₂] at step
    have whole : (0xE0 + unit / 4096) % 16 * 4096 + (0x80 + unit / 64 % 64) % 64 * 64
        + (0x80 + unit % 64) % 64 = unit := by omega
    rw [whole] at step
    exact step

private theorem decodeUnitsFrom_flatMap (units : List Nat) (small : ∀ u ∈ units, u < 65536)
    (offset : Nat) (found : List Nat) :
    decodeUnitsFrom offset found (units.flatMap encodeUnit) = .ok (found.reverse ++ units) := by
  induction units generalizing offset found with
  | nil => simp [decodeUnitsFrom]
  | cons unit units ih =>
    rw [List.flatMap_cons, decodeUnitsFrom_encodeUnit (small unit List.mem_cons_self),
      ih (fun u member => small u (List.mem_cons_of_mem _ member))]
    simp

theorem decodeUnits_flatMap_encodeUnit {units : List Nat} (small : ∀ u ∈ units, u < 65536) :
    decodeUnits (units.flatMap encodeUnit) = .ok units := by
  rw [decodeUnits, decodeUnitsFrom_flatMap units small]
  rfl

theorem toNat_valid (c : Char) :
    c.toNat < 0xD800 ∨ 0xDFFF < c.toNat ∧ c.toNat < 0x110000 := c.valid

theorem unitsOf_lt (c : Char) : ∀ u ∈ unitsOf c, u < 65536 := by
  intro u member
  have valid := toNat_valid c
  unfold unitsOf at member
  dsimp only at member
  split_ifs at member with basic
  · rw [List.mem_singleton] at member
    omega
  · simp only [List.mem_cons, List.not_mem_nil, or_false] at member
    omega

theorem charsFrom_basic {unit : Nat} (notHigh : isHigh unit = false)
    (notLow : isLow unit = false) (found : List Char) (rest : List Nat) :
    charsFrom found (unit :: rest) = charsFrom (Char.ofNat unit :: found) rest := by
  cases rest with
  | nil => simp [charsFrom, notHigh, notLow]
  | cons next rest => simp [charsFrom, notHigh, notLow]

private theorem charsFrom_unitsOf (c : Char) (found : List Char) (rest : List Nat) :
    charsFrom found (unitsOf c ++ rest) = charsFrom (c :: found) rest := by
  have valid := toNat_valid c
  unfold unitsOf
  dsimp only
  split_ifs with basic
  · have notHigh : isHigh c.toNat = false := by
      simp only [isHigh, Bool.and_eq_false_iff, decide_eq_false_iff_not]
      omega
    have notLow : isLow c.toNat = false := by
      simp only [isLow, Bool.and_eq_false_iff, decide_eq_false_iff_not]
      omega
    have step := charsFrom_basic notHigh notLow found rest
    rwa [Char.ofNat_toNat] at step
  · have high : isHigh (0xD800 + (c.toNat - 0x10000) / 1024) = true := by
      simp only [isHigh, Bool.and_eq_true, decide_eq_true_eq]
      omega
    have low : isLow (0xDC00 + (c.toNat - 0x10000) % 1024) = true := by
      simp only [isLow, Bool.and_eq_true, decide_eq_true_eq]
      omega
    have point : 0x10000 + (0xD800 + (c.toNat - 0x10000) / 1024 - 0xD800) * 1024
        + (0xDC00 + (c.toNat - 0x10000) % 1024 - 0xDC00) = c.toNat := by omega
    simp only [List.cons_append, List.nil_append, charsFrom, high, low, Bool.and_true, if_true]
    rw [point, Char.ofNat_toNat]

private theorem charsFrom_flatMap (cs found : List Char) :
    charsFrom found (cs.flatMap unitsOf) = found.reverse ++ cs := by
  induction cs generalizing found with
  | nil => simp [charsFrom]
  | cons c cs ih =>
    rw [List.flatMap_cons, charsFrom_unitsOf, ih]
    simp

theorem encode_eq_flatMap_units (t : Text) :
    encode t = ((Utf8.chars t).flatMap unitsOf).flatMap encodeUnit := by
  rw [encode, List.flatMap_assoc]

theorem decode_encode_of_valid {t : Text} (valid : Utf8.isValid t = true) :
    decode (encode t) = .ok t := by
  have small : ∀ u ∈ (Utf8.chars t).flatMap unitsOf, u < 65536 := by
    intro u member
    obtain ⟨c, _, units⟩ := List.mem_flatMap.mp member
    exact unitsOf_lt c u units
  have units := decodeUnits_flatMap_encodeUnit small
  have chars := charsFrom_flatMap (Utf8.chars t) []
  rw [decode, encode_eq_flatMap_units, units]
  simp only [Except.map, chars, List.reverse_nil, List.nil_append]
  rw [Utf8.encode_chars valid]

private theorem range_of_mem_encodeUnit {unit : Nat} (small : unit < 65536) {b : UInt8}
    (member : b ∈ encodeUnit unit) : 0 < b.toNat ∧ b.toNat < 240 := by
  -- Every byte is `n.toUInt8` for some `n` in the range, which `toUInt8` leaves as it is.
  have byte : ∀ n : Nat, 0 < n → n < 240 → b = n.toUInt8 → 0 < b.toNat ∧ b.toNat < 240 := by
    rintro n positive below rfl
    rw [toNat_toUInt8 n (by omega)]
    exact ⟨positive, below⟩
  unfold encodeUnit at member
  split_ifs at member <;> simp only [List.mem_cons, List.not_mem_nil, or_false] at member
  · rcases member with rfl | rfl <;> decide
  · exact byte _ (by omega) (by omega) member
  · rcases member with same | same <;> exact byte _ (by omega) (by omega) same
  · rcases member with same | same | same <;> exact byte _ (by omega) (by omega) same

private theorem range_of_mem_encode {t : Text} {b : UInt8} (member : b ∈ encode t) :
    b ≠ 0x00 ∧ b < 0xF0 := by
  rw [encode_eq_flatMap_units] at member
  obtain ⟨unit, units, inside⟩ := List.mem_flatMap.mp member
  obtain ⟨c, _, own⟩ := List.mem_flatMap.mp units
  obtain ⟨positive, below⟩ := range_of_mem_encodeUnit (unitsOf_lt c unit own) inside
  constructor
  · rintro rfl
    exact absurd positive (by decide)
  · simpa [UInt8.lt_iff_toNat_lt] using below

/-- Encoding is reversible on well-formed text: decoding gives the text back, so no other
well-formed text has the same encoding. No byte of it is zero, and none is 0xF0 or above. -/
theorem encode_reversible {t : Text} (valid : Utf8.isValid t = true) :
    decode (encode t) = .ok t ∧
      (∀ other, Utf8.isValid other = true → encode other = encode t → other = t) ∧
      ∀ b ∈ encode t, b ≠ 0x00 ∧ b < 0xF0 := by
  have back := decode_encode_of_valid valid
  refine ⟨back, ?_, fun b => range_of_mem_encode⟩
  intro other otherValid same
  have otherBack := decode_encode_of_valid otherValid
  rw [same, back] at otherBack
  cases otherBack
  rfl

def mixedText : Text := [0x61, 0x00, 0xC3, 0xA9, 0xE2, 0x82, 0xAC, 0xF0, 0x9F, 0x98, 0x80]

theorem encode_reversible_mixedText :
    Utf8.isValid mixedText = true ∧
      encode mixedText =
        [0x61, 0xC0, 0x80, 0xC3, 0xA9, 0xE2, 0x82, 0xAC, 0xED, 0xA0, 0xBD, 0xED, 0xB8, 0x80] ∧
      decode (encode mixedText) = .ok mixedText ∧
      (∀ other, Utf8.isValid other = true → encode other = encode mixedText → other = mixedText) ∧
      ∀ b ∈ encode mixedText, b ≠ 0x00 ∧ b < 0xF0 := by
  have valid : Utf8.isValid mixedText = true := by decide
  exact ⟨valid, by decide, encode_reversible valid⟩

end JvmAssembler.ModifiedUtf8
