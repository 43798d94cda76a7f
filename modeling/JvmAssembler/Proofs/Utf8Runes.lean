import Mathlib.Tactic.SplitIfs
import JvmAssembler.Text.Utf8

/-!
# Texts as runes

Reading a text finds its runes one after the other and loses no byte. Every fold over a text is a
fold over its runes, so a text is well-formed exactly when it is the encoding of its characters, and
the characters of an encoding are those encoded.
-/

set_option autoImplicit false
set_option relaxedAutoImplicit false

namespace JvmAssembler.Utf8

theorem toNat_ofNat_of_valid {n : Nat} (valid : n.isValidChar) : (Char.ofNat n).toNat = n := by
  rw [Char.ofNat, dif_pos valid]
  rfl

theorem toUInt8_eq_of_toNat {b : UInt8} {n : Nat} (equal : n = b.toNat) : n.toUInt8 = b := by
  subst equal
  simp

theorem isContinuation_iff (b : UInt8) :
    isContinuation b = true ↔ 128 ≤ b.toNat ∧ b.toNat < 192 := by
  simp [isContinuation, UInt8.le_iff_toNat_le, UInt8.lt_iff_toNat_lt]

theorem toNat_toUInt8 (n : Nat) (small : n < 256) : n.toUInt8.toNat = n := by
  simpa using small

theorem isContinuation_toUInt8 {n : Nat} (low : 128 ≤ n) (high : n < 192) :
    isContinuation n.toUInt8 = true := by
  rw [isContinuation_iff, toNat_toUInt8 n (by omega)]
  exact ⟨low, high⟩

private theorem isValidChar_of_lt {n : Nat} (small : n < 0xD800) : n.isValidChar := Or.inl small

private theorem encodeChar_one {b : UInt8} (low : b < 0x80) :
    encodeChar (Char.ofNat b.toNat) = [b] := by
  have bound : b.toNat < 128 := by simpa [UInt8.lt_iff_toNat_lt] using low
  have point : (Char.ofNat b.toNat).toNat = b.toNat :=
    toNat_ofNat_of_valid (isValidChar_of_lt (by omega))
  simp only [encodeChar, point, if_pos bound]
  rw [toUInt8_eq_of_toNat rfl]

private theorem encodeChar_two {b₀ b₁ : UInt8} (lead : 192 ≤ b₀.toNat ∧ b₀.toNat < 224)
    (tail : isContinuation b₁ = true) (large : 0x80 ≤ b₀.toNat % 32 * 64 + payload b₁) :
    encodeChar (Char.ofNat (b₀.toNat % 32 * 64 + payload b₁)) = [b₀, b₁] := by
  rw [isContinuation_iff] at tail
  simp only [payload] at large ⊢
  have point := toNat_ofNat_of_valid
    (n := b₀.toNat % 32 * 64 + b₁.toNat % 64) (isValidChar_of_lt (by omega))
  simp only [encodeChar, point]
  rw [if_neg (by omega), if_pos (by omega),
    toUInt8_eq_of_toNat (b := b₀) (by omega), toUInt8_eq_of_toNat (b := b₁) (by omega)]

private theorem encodeChar_three {b₀ b₁ b₂ : UInt8} (lead : 224 ≤ b₀.toNat ∧ b₀.toNat < 240)
    (tail₁ : isContinuation b₁ = true) (tail₂ : isContinuation b₂ = true)
    (large : 0x800 ≤ b₀.toNat % 16 * 4096 + payload b₁ * 64 + payload b₂)
    (valid : (b₀.toNat % 16 * 4096 + payload b₁ * 64 + payload b₂).isValidChar) :
    encodeChar (Char.ofNat (b₀.toNat % 16 * 4096 + payload b₁ * 64 + payload b₂)) =
      [b₀, b₁, b₂] := by
  rw [isContinuation_iff] at tail₁ tail₂
  have point := toNat_ofNat_of_valid valid
  simp only [payload] at large point ⊢
  simp only [encodeChar, point]
  rw [if_neg (by omega), if_neg (by omega), if_pos (by omega),
    toUInt8_eq_of_toNat (b := b₀) (by omega), toUInt8_eq_of_toNat (b := b₁) (by omega),
    toUInt8_eq_of_toNat (b := b₂) (by omega)]

private theorem encodeChar_four {b₀ b₁ b₂ b₃ : UInt8} (lead : 240 ≤ b₀.toNat ∧ b₀.toNat < 248)
    (tail₁ : isContinuation b₁ = true) (tail₂ : isContinuation b₂ = true)
    (tail₃ : isContinuation b₃ = true)
    (large : 0x10000 ≤
      b₀.toNat % 8 * 262144 + payload b₁ * 4096 + payload b₂ * 64 + payload b₃)
    (valid : (b₀.toNat % 8 * 262144 + payload b₁ * 4096 + payload b₂ * 64
      + payload b₃).isValidChar) :
    encodeChar (Char.ofNat
      (b₀.toNat % 8 * 262144 + payload b₁ * 4096 + payload b₂ * 64 + payload b₃)) =
      [b₀, b₁, b₂, b₃] := by
  rw [isContinuation_iff] at tail₁ tail₂ tail₃
  have point := toNat_ofNat_of_valid valid
  simp only [payload] at large point ⊢
  simp only [encodeChar, point]
  rw [if_neg (by omega), if_neg (by omega), if_neg (by omega),
    toUInt8_eq_of_toNat (b := b₀) (by omega), toUInt8_eq_of_toNat (b := b₁) (by omega),
    toUInt8_eq_of_toNat (b := b₂) (by omega), toUInt8_eq_of_toNat (b := b₃) (by omega)]

private theorem eq_encodeChar_append_long {b₀ b₁ : UInt8} {t₁ rest : Text} {c : Char}
    (lead : 224 ≤ b₀.toNat) (tail₁ : isContinuation b₁ = true)
    (found : next? (b₀ :: b₁ :: t₁) = some (c, rest)) :
    b₀ :: b₁ :: t₁ = encodeChar c ++ rest := by
  have notOne : ¬ b₀ < 0x80 := by simp [UInt8.lt_iff_toNat_lt]; omega
  have notTail : ¬ b₀ < 0xC0 := by simp [UInt8.lt_iff_toNat_lt]; omega
  have notTwo : ¬ b₀ < 0xE0 := by simp [UInt8.lt_iff_toNat_lt]; omega
  simp only [next?, notOne, notTail, notTwo, tail₁, Bool.not_true, Bool.false_eq_true,
    if_false] at found
  cases t₁ with
  | nil => cases found
  | cons b₂ t₂ =>
    by_cases tail₂ : isContinuation b₂
    · simp only [tail₂, Bool.not_true, Bool.false_eq_true, if_false] at found
      split at found
      case isTrue three =>
        simp only [UInt8.lt_iff_toNat_lt, UInt8.reduceToNat] at three
        split at found
        case isTrue large =>
          cases found
          rw [encodeChar_three ⟨lead, three⟩ tail₁ tail₂ large.1 large.2]
          rfl
        case isFalse => cases found
      case isFalse three =>
        simp only [UInt8.lt_iff_toNat_lt, UInt8.reduceToNat] at three
        split at found
        case isTrue four =>
          simp only [UInt8.lt_iff_toNat_lt, UInt8.reduceToNat] at four
          cases t₂ with
          | nil => cases found
          | cons b₃ t₃ =>
            by_cases tail₃ : isContinuation b₃
            · simp only [tail₃, Bool.not_true, Bool.false_eq_true, if_false] at found
              split at found
              case isTrue large =>
                cases found
                rw [encodeChar_four ⟨by omega, four⟩ tail₁ tail₂ tail₃ large.1 large.2]
                rfl
              case isFalse => cases found
            · simp [tail₃] at found
        case isFalse => cases found
    · simp [tail₂] at found

private theorem eq_encodeChar_append {t rest : Text} {c : Char} (found : next? t = some (c, rest)) :
    t = encodeChar c ++ rest := by
  cases t with
  | nil => cases found
  | cons b₀ t₀ =>
    have whole := found
    simp only [next?] at found
    split at found
    case isTrue low =>
      cases found
      rw [encodeChar_one low]
      rfl
    case isFalse low =>
      split at found
      case isTrue => cases found
      case isFalse lead =>
        simp only [UInt8.lt_iff_toNat_lt, UInt8.reduceToNat] at low lead
        cases t₀ with
        | nil => cases found
        | cons b₁ t₁ =>
          by_cases tail₁ : isContinuation b₁
          · simp only [tail₁, Bool.not_true, Bool.false_eq_true, if_false] at found
            split at found
            case isTrue two =>
              simp only [UInt8.lt_iff_toNat_lt, UInt8.reduceToNat] at two
              split at found
              case isTrue large =>
                cases found
                rw [encodeChar_two ⟨by omega, two⟩ tail₁ large]
                rfl
              case isFalse => cases found
            case isFalse two =>
              simp only [UInt8.lt_iff_toNat_lt, UInt8.reduceToNat] at two
              exact eq_encodeChar_append_long (by omega) tail₁ whole
          · simp [tail₁] at found

private theorem encodeChar_ne_nil (c : Char) : encodeChar c ≠ [] := by
  unfold encodeChar
  dsimp only
  split_ifs <;> simp

private theorem length_next?_lt {b : UInt8} {t rest : Text} {c : Char}
    (found : next? (b :: t) = some (c, rest)) : rest.length ≤ t.length := by
  have bytes := congrArg List.length (eq_encodeChar_append found)
  have positive := List.length_pos_iff.mpr (encodeChar_ne_nil c)
  simp only [List.length_cons, List.length_append] at bytes
  omega

/-- Fuel for every byte is enough, and more changes nothing. -/
private theorem foldFrom_eq_fold {σ : Type} (f : σ → Rune → σ) :
    ∀ (fuel : Nat) (s : σ) (t : Text), t.length ≤ fuel → foldFrom f fuel s t = fold f s t := by
  suffices grow : ∀ (fuel : Nat) (s : σ) (t : Text), t.length ≤ fuel →
      foldFrom f (fuel + 1) s t = foldFrom f fuel s t by
    intro fuel s t enough
    induction fuel with
    | zero =>
      have empty : t.length = 0 := by omega
      simp only [fold, empty]
    | succ fuel ih =>
      rcases Nat.lt_or_ge fuel t.length with short | long
      · have exactly : t.length = fuel + 1 := by omega
        simp only [fold, exactly]
      · rw [grow fuel s t long, ih long]
  intro fuel
  induction fuel with
  | zero =>
    intro s t enough
    have empty : t = [] := List.eq_nil_of_length_eq_zero (by omega)
    subst empty
    rfl
  | succ fuel ih =>
    intro s t enough
    cases t with
    | nil => rfl
    | cons b t =>
      rw [foldFrom, foldFrom]
      simp only [List.length_cons] at enough
      cases found : next? (b :: t) with
      | none => exact ih _ t (by omega)
      | some pair => exact ih _ pair.2 (Nat.le_trans (length_next?_lt found) (by omega))

private theorem fold_cons {σ : Type} (f : σ → Rune → σ) (s : σ) (b : UInt8) (t : Text) :
    fold f s (b :: t) =
      match next? (b :: t) with
      | some (c, rest) => fold f (f s (.char c)) rest
      | none => fold f (f s (.stray b)) t := by
  rw [fold, List.length_cons, foldFrom]
  cases found : next? (b :: t) with
  | none => exact foldFrom_eq_fold f _ _ _ (Nat.le_refl _)
  | some pair => exact foldFrom_eq_fold f _ _ _ (length_next?_lt found)

@[elab_as_elim]
private theorem rune_induction {P : Text → Prop} (nil : P [])
    (char : ∀ (b : UInt8) (t : Text) (c : Char) (rest : Text),
      next? (b :: t) = some (c, rest) → P rest → P (b :: t))
    (stray : ∀ (b : UInt8) (t : Text), next? (b :: t) = none → P t → P (b :: t))
    (t : Text) : P t := by
  suffices bounded : ∀ (n : Nat) (t : Text), t.length ≤ n → P t from
    bounded t.length t (Nat.le_refl _)
  intro n
  induction n with
  | zero =>
    intro t short
    rw [List.eq_nil_of_length_eq_zero (Nat.le_zero.mp short)]
    exact nil
  | succ n ih =>
    intro t short
    cases t with
    | nil => exact nil
    | cons b t =>
      have shorter : t.length ≤ n := Nat.le_of_succ_le_succ short
      cases found : next? (b :: t) with
      | none => exact stray b t found (ih t shorter)
      | some pair =>
        exact char b t pair.1 pair.2 found
          (ih pair.2 (Nat.le_trans (length_next?_lt found) shorter))

private theorem fold_newest_first (t : Text) (found : List Rune) :
    fold (fun found r => r :: found) found t =
      fold (fun found r => r :: found) [] t ++ found := by
  induction t using rune_induction generalizing found with
  | nil => rfl
  | char b t c rest next ih =>
    rw [fold_cons, fold_cons]
    simp only [next]
    rw [ih, ih [Rune.char c]]
    simp
  | stray b t next ih =>
    rw [fold_cons, fold_cons]
    simp only [next]
    rw [ih, ih [Rune.stray b]]
    simp

private theorem runes_of_char {b : UInt8} {t rest : Text} {c : Char}
    (next : next? (b :: t) = some (c, rest)) : runes (b :: t) = .char c :: runes rest := by
  rw [runes, fold_cons]
  simp only [next]
  rw [fold_newest_first, List.reverse_append]
  rfl

private theorem runes_of_stray {b : UInt8} {t : Text} (next : next? (b :: t) = none) :
    runes (b :: t) = .stray b :: runes t := by
  rw [runes, fold_cons]
  simp only [next]
  rw [fold_newest_first, List.reverse_append]
  rfl

private theorem fold_eq_foldl_runes {σ : Type} (f : σ → Rune → σ) (s : σ) (t : Text) :
    fold f s t = (runes t).foldl f s := by
  induction t using rune_induction generalizing s with
  | nil => rfl
  | char b t c rest next ih =>
    rw [fold_cons, runes_of_char next, List.foldl_cons]
    simp only [next]
    exact ih _
  | stray b t next ih =>
    rw [fold_cons, runes_of_stray next, List.foldl_cons]
    simp only [next]
    exact ih _

private theorem flatMap_toText_runes (t : Text) : (runes t).flatMap Rune.toText = t := by
  induction t using rune_induction with
  | nil => rfl
  | char b t c rest next ih =>
    rw [runes_of_char next, List.flatMap_cons, ih]
    exact (eq_encodeChar_append next).symm
  | stray b t next ih =>
    rw [runes_of_stray next, List.flatMap_cons, ih]
    rfl

private theorem foldl_and_isChar (rs : List Rune) (ok : Bool) :
    rs.foldl (fun ok r => ok && r.isChar) ok = (ok && rs.all Rune.isChar) := by
  induction rs generalizing ok with
  | nil => simp
  | cons r rs ih => rw [List.foldl_cons, ih, List.all_cons, Bool.and_assoc]

private theorem isValid_eq_all (t : Text) : isValid t = (runes t).all Rune.isChar := by
  rw [isValid, fold_eq_foldl_runes, foldl_and_isChar, Bool.true_and]

theorem encode_chars {t : Text} (valid : isValid t = true) : encode (chars t) = t := by
  rw [isValid_eq_all, List.all_eq_true] at valid
  have same : ∀ r ∈ runes t, encodeChar r.toChar = r.toText := by
    intro r member
    cases r with
    | char c => rfl
    | stray b => exact absurd (valid _ member) (by simp [Rune.isChar])
  calc encode (chars t)
      = (runes t).flatMap fun r => encodeChar r.toChar := by
        simp only [encode, chars, List.flatMap_map]
    _ = (runes t).flatMap Rune.toText := by
        rw [List.flatMap_def, List.flatMap_def, List.map_congr_left same]
    _ = t := flatMap_toText_runes t

section Encoded

variable (b₀ b₁ b₂ b₃ : UInt8) (rest : Text)

private theorem next?_one (low : b₀.toNat < 128) :
    next? (b₀ :: rest) = some (Char.ofNat b₀.toNat, rest) := by
  have one : b₀ < 0x80 := by simpa [UInt8.lt_iff_toNat_lt] using low
  simp only [next?, one, if_true]

private theorem next?_two (lead : 192 ≤ b₀.toNat ∧ b₀.toNat < 224)
    (tail : isContinuation b₁ = true) (large : 0x80 ≤ b₀.toNat % 32 * 64 + payload b₁) :
    next? (b₀ :: b₁ :: rest) =
      some (Char.ofNat (b₀.toNat % 32 * 64 + payload b₁), rest) := by
  have notOne : ¬ b₀ < 0x80 := by simp only [UInt8.lt_iff_toNat_lt, UInt8.reduceToNat]; omega
  have notTail : ¬ b₀ < 0xC0 := by simp only [UInt8.lt_iff_toNat_lt, UInt8.reduceToNat]; omega
  have two : b₀ < 0xE0 := by simp only [UInt8.lt_iff_toNat_lt, UInt8.reduceToNat]; omega
  simp only [next?, notOne, notTail, two, tail, large, Bool.not_true, Bool.false_eq_true, if_false,
    if_true]

private theorem next?_three (lead : 224 ≤ b₀.toNat ∧ b₀.toNat < 240)
    (tail₁ : isContinuation b₁ = true) (tail₂ : isContinuation b₂ = true)
    (proper : 0x800 ≤ b₀.toNat % 16 * 4096 + payload b₁ * 64 + payload b₂ ∧
      (b₀.toNat % 16 * 4096 + payload b₁ * 64 + payload b₂).isValidChar) :
    next? (b₀ :: b₁ :: b₂ :: rest) =
      some (Char.ofNat (b₀.toNat % 16 * 4096 + payload b₁ * 64 + payload b₂), rest) := by
  have notOne : ¬ b₀ < 0x80 := by simp only [UInt8.lt_iff_toNat_lt, UInt8.reduceToNat]; omega
  have notTail : ¬ b₀ < 0xC0 := by simp only [UInt8.lt_iff_toNat_lt, UInt8.reduceToNat]; omega
  have notTwo : ¬ b₀ < 0xE0 := by simp only [UInt8.lt_iff_toNat_lt, UInt8.reduceToNat]; omega
  have three : b₀ < 0xF0 := by simp only [UInt8.lt_iff_toNat_lt, UInt8.reduceToNat]; omega
  simp only [next?, notOne, notTail, notTwo, three, tail₁, tail₂, proper, and_self, Bool.not_true,
    Bool.false_eq_true, if_false, if_true]

private theorem next?_four (lead : 240 ≤ b₀.toNat ∧ b₀.toNat < 248)
    (tail₁ : isContinuation b₁ = true) (tail₂ : isContinuation b₂ = true)
    (tail₃ : isContinuation b₃ = true)
    (proper : 0x10000 ≤
        b₀.toNat % 8 * 262144 + payload b₁ * 4096 + payload b₂ * 64 + payload b₃ ∧
      (b₀.toNat % 8 * 262144 + payload b₁ * 4096 + payload b₂ * 64 + payload b₃).isValidChar) :
    next? (b₀ :: b₁ :: b₂ :: b₃ :: rest) =
      some (Char.ofNat
        (b₀.toNat % 8 * 262144 + payload b₁ * 4096 + payload b₂ * 64 + payload b₃), rest) := by
  have notOne : ¬ b₀ < 0x80 := by simp only [UInt8.lt_iff_toNat_lt, UInt8.reduceToNat]; omega
  have notTail : ¬ b₀ < 0xC0 := by simp only [UInt8.lt_iff_toNat_lt, UInt8.reduceToNat]; omega
  have notTwo : ¬ b₀ < 0xE0 := by simp only [UInt8.lt_iff_toNat_lt, UInt8.reduceToNat]; omega
  have notThree : ¬ b₀ < 0xF0 := by simp only [UInt8.lt_iff_toNat_lt, UInt8.reduceToNat]; omega
  have four : b₀ < 0xF8 := by simp only [UInt8.lt_iff_toNat_lt, UInt8.reduceToNat]; omega
  simp only [next?, notOne, notTail, notTwo, notThree, four, tail₁, tail₂, tail₃, proper, and_self,
    Bool.not_true, Bool.false_eq_true, if_false, if_true]

private theorem next?_encodeChar_append (c : Char) :
    next? (encodeChar c ++ rest) = some (c, rest) := by
  have valid : c.toNat.isValidChar := c.valid
  have below : c.toNat < 0x110000 := by
    rcases valid with low | high <;> omega
  unfold encodeChar
  dsimp only
  split_ifs with one two three
  · have value := toNat_toUInt8 c.toNat (by omega)
    have step := next?_one c.toNat.toUInt8 rest (by omega)
    rw [value, Char.ofNat_toNat] at step
    exact step
  · have lead := toNat_toUInt8 (0xC0 + c.toNat / 64) (by omega)
    have tail := toNat_toUInt8 (0x80 + c.toNat % 64) (by omega)
    have point : (0xC0 + c.toNat / 64) % 32 * 64 + (0x80 + c.toNat % 64) % 64 = c.toNat := by omega
    have step := next?_two (0xC0 + c.toNat / 64).toUInt8 (0x80 + c.toNat % 64).toUInt8 rest
    simp only [payload, lead, tail, point, Char.ofNat_toNat] at step
    exact step (by omega) (isContinuation_toUInt8 (by omega) (by omega)) (by omega)
  · have lead := toNat_toUInt8 (0xE0 + c.toNat / 4096) (by omega)
    have tail₁ := toNat_toUInt8 (0x80 + c.toNat / 64 % 64) (by omega)
    have tail₂ := toNat_toUInt8 (0x80 + c.toNat % 64) (by omega)
    have point : (0xE0 + c.toNat / 4096) % 16 * 4096 + (0x80 + c.toNat / 64 % 64) % 64 * 64
        + (0x80 + c.toNat % 64) % 64 = c.toNat := by omega
    have step := next?_three (0xE0 + c.toNat / 4096).toUInt8
      (0x80 + c.toNat / 64 % 64).toUInt8 (0x80 + c.toNat % 64).toUInt8 rest
    simp only [payload, lead, tail₁, tail₂, point, Char.ofNat_toNat] at step
    exact step (by omega) (isContinuation_toUInt8 (by omega) (by omega))
      (isContinuation_toUInt8 (by omega) (by omega)) ⟨by omega, valid⟩
  · have lead := toNat_toUInt8 (0xF0 + c.toNat / 262144) (by omega)
    have tail₁ := toNat_toUInt8 (0x80 + c.toNat / 4096 % 64) (by omega)
    have tail₂ := toNat_toUInt8 (0x80 + c.toNat / 64 % 64) (by omega)
    have tail₃ := toNat_toUInt8 (0x80 + c.toNat % 64) (by omega)
    have point : (0xF0 + c.toNat / 262144) % 8 * 262144 + (0x80 + c.toNat / 4096 % 64) % 64 * 4096
        + (0x80 + c.toNat / 64 % 64) % 64 * 64 + (0x80 + c.toNat % 64) % 64 = c.toNat := by omega
    have step := next?_four (0xF0 + c.toNat / 262144).toUInt8
      (0x80 + c.toNat / 4096 % 64).toUInt8 (0x80 + c.toNat / 64 % 64).toUInt8
      (0x80 + c.toNat % 64).toUInt8 rest
    simp only [payload, lead, tail₁, tail₂, tail₃, point, Char.ofNat_toNat] at step
    exact step (by omega) (isContinuation_toUInt8 (by omega) (by omega))
      (isContinuation_toUInt8 (by omega) (by omega))
      (isContinuation_toUInt8 (by omega) (by omega)) ⟨by omega, valid⟩

end Encoded

private theorem runes_encode (cs : List Char) : runes (encode cs) = cs.map Rune.char := by
  induction cs with
  | nil => rfl
  | cons c cs ih =>
    have next := next?_encodeChar_append (encode cs) c
    have split : encode (c :: cs) = encodeChar c ++ encode cs := List.flatMap_cons
    rw [← split] at next
    cases whole : encode (c :: cs) with
    | nil =>
      rw [whole] at next
      cases next
    | cons b t =>
      rw [whole] at next
      rw [runes_of_char next, ih, List.map_cons]

theorem chars_encode (cs : List Char) : chars (encode cs) = cs := by
  rw [chars, runes_encode, List.map_map]
  exact List.map_id cs

theorem isValid_iff {t : Text} : isValid t = true ↔ ∃ cs, encode cs = t := by
  constructor
  · intro valid
    exact ⟨chars t, encode_chars valid⟩
  · rintro ⟨cs, rfl⟩
    rw [isValid_eq_all, runes_encode, List.all_map]
    exact List.all_eq_true.mpr fun _ _ => rfl

end JvmAssembler.Utf8
