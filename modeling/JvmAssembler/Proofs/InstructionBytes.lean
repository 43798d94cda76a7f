import Mathlib.Algebra.Group.Nat.Defs
import JvmAssembler.Proofs.FieldOutcome

/-!
# The bytes of an instruction

An instruction puts the same bytes behind whatever code there is, or none at all. So the code of
instructions is made of the bytes of each, and its length, which is found without it, is the sum of
theirs.
-/

set_option autoImplicit false
set_option relaxedAutoImplicit false

namespace JvmAssembler

private theorem append_append_bytes (code : Array UInt8) (first second : Bytes) :
    code ++ first ++ second = code ++ (first ++ second) := by
  apply Array.toList_inj.mp
  simp

namespace Instruction

/-- The bytes of an instruction, whatever code is in front of them. -/
def encode (r : Resolver) : Instruction → Except Failure Bytes
  | .bare op => .ok [op.byte]
  | .byte op value => .ok [op.byte, value.toUInt8]
  | .short op value => .ok (op.byte :: BigEndian.u2 value.toUInt16)
  | .slot op index => .ok [op.byte, index]
  | .constant op symbol => do
    let (code, index) ← resolveConstant r op symbol
    if code ≠ op.fullWidth then pure [code.byte, index.toUInt8]
    else pure (code.byte :: BigEndian.u2 index)
  | .constantPair op (some first) (some second) => do
    let a ← r first
    let b ← r second
    pure (op.byte :: (BigEndian.u2 a ++ BigEndian.u2 b))
  | .constantPair op _ _ =>
    .error (.because .invariant "bytecode.TwoSymbolOperand" (.missingSymbolOfPair op))

/-- What appending does to code, given the bytes that there are or the reason why there are none. -/
private def put (code : Array UInt8) : Except Failure Bytes → Array UInt8 × Except Failure Unit
  | .ok bytes => (code ++ bytes, .ok ())
  | .error f => (code, .error f)

private theorem appendTo_eq_put (r : Resolver) (code : Array UInt8) (i : Instruction) :
    i.appendTo r code = put code (i.encode r) := by
  cases i with
  | bare op => simp [appendTo, encode, put]
  | byte op value => simp [appendTo, encode, put]
  | short op value => simp [appendTo, encode, put]
  | slot op index => simp [appendTo, encode, put]
  | constant op symbol =>
    rw [appendTo, encode]
    cases resolveConstant r op symbol with
    | error f => rfl
    | ok pair =>
      obtain ⟨chosen, index⟩ := pair
      change _ = put code (if chosen ≠ op.fullWidth then pure [chosen.byte, index.toUInt8]
        else pure (chosen.byte :: BigEndian.u2 index))
      dsimp only
      split_ifs
      · simp [put, pure, Except.pure]
      · simp [put, pure, Except.pure]
  | constantPair op first second =>
    cases first with
    | none => rfl
    | some a =>
      cases second with
      | none => rfl
      | some b =>
        rw [appendTo, encode]
        cases r a with
        | error f => rfl
        | ok i =>
          cases r b with
          | error f => rfl
          | ok j =>
            change _ = put code (.ok (op.byte :: (BigEndian.u2 i ++ BigEndian.u2 j)))
            simp [put, append_append_bytes]

variable {r : Resolver} {i : Instruction}

theorem appendTo_of_encode_eq_ok {bytes : Bytes} (encoded : i.encode r = .ok bytes)
    (code : Array UInt8) : i.appendTo r code = (code ++ bytes, .ok ()) := by
  rw [appendTo_eq_put, encoded, put]

theorem appendTo_of_encode_eq_error {f : Failure} (failed : i.encode r = .error f)
    (code : Array UInt8) : i.appendTo r code = (code, .error f) := by
  rw [appendTo_eq_put, failed, put]

theorem encodedLength_of_encode {bytes : Bytes} (encoded : i.encode r = .ok bytes) :
    i.encodedLength r = .ok bytes.length := by
  cases i with
  | bare op => cases encoded; rfl
  | byte op value => cases encoded; rfl
  | short op value => cases encoded; rfl
  | slot op index => cases encoded; rfl
  | constant op symbol =>
    obtain ⟨pair, resolved, encoded⟩ := exists_of_bind_eq_ok encoded
    rw [encodedLength, resolved]
    change (if pair.1 ≠ op.fullWidth then pure [pair.1.byte, pair.2.toUInt8]
      else pure (pair.1.byte :: BigEndian.u2 pair.2)) = Except.ok bytes at encoded
    change Except.ok (if pair.1 ≠ op.fullWidth then 2 else 3) = Except.ok bytes.length
    split_ifs at encoded ⊢ with narrow
    · cases encoded
      rfl
    · cases encoded
      rfl
  | constantPair op first second =>
    cases first with
    | none => cases encoded
    | some a =>
      cases second with
      | none => cases encoded
      | some b =>
        obtain ⟨i, -, encoded⟩ := exists_of_bind_eq_ok encoded
        obtain ⟨j, -, encoded⟩ := exists_of_bind_eq_ok encoded
        cases encoded
        rfl

private theorem encodedLength_le_five {n : Nat} (measured : i.encodedLength r = .ok n) : n ≤ 5 := by
  cases i with
  | bare op => cases measured; decide
  | byte op value => cases measured; decide
  | short op value => cases measured; decide
  | slot op index => cases measured; decide
  | constant op symbol =>
    obtain ⟨pair, -, measured⟩ := exists_of_bind_eq_ok measured
    cases measured
    split_ifs
    · decide
    · decide
  | constantPair op first second => cases measured; decide

end Instruction

namespace Code

variable {r : Resolver} {instructions : List Instruction}

theorem appendAll_of_mapM_eq_ok {pieces : List Bytes}
    (each : instructions.mapM (Instruction.encode r) = .ok pieces) (code : Array UInt8) :
    appendAll r code instructions = (code ++ pieces.flatten, .ok ()) := by
  have pointwise := forall₂_of_mapM_eq_ok each
  clear each
  induction pointwise generalizing code with
  | nil => simp [appendAll]
  | cons head _ ih =>
    rw [appendAll, Instruction.appendTo_of_encode_eq_ok head]
    dsimp only
    rw [ih, append_append_bytes, List.flatten_cons]

theorem appendAll_of_mapM_eq_error {f : Failure}
    (failed : instructions.mapM (Instruction.encode r) = .error f) (code : Array UInt8) :
    (appendAll r code instructions).2 = .error f := by
  induction instructions generalizing code with
  | nil => cases failed
  | cons i instructions ih =>
    rw [List.mapM_cons] at failed
    cases encoded : i.encode r with
    | error g =>
      rw [encoded] at failed
      cases failed
      rw [appendAll, Instruction.appendTo_of_encode_eq_error encoded]
    | ok bytes =>
      rw [encoded] at failed
      rw [appendAll, Instruction.appendTo_of_encode_eq_ok encoded]
      cases rest : instructions.mapM (Instruction.encode r) with
      | error g =>
        rw [rest] at failed
        cases failed
        exact ih rest _
      | ok pieces =>
        rw [rest] at failed
        cases failed

theorem encode_eq_flatten (r : Resolver) (instructions : List Instruction) :
    encode r instructions = (instructions.mapM (Instruction.encode r)).map List.flatten := by
  rw [encode]
  cases each : instructions.mapM (Instruction.encode r) with
  | ok pieces =>
    rw [appendAll_of_mapM_eq_ok each]
    simp [Except.map]
  | error f =>
    have failed := appendAll_of_mapM_eq_error each #[]
    rcases appended : appendAll r #[] instructions with ⟨code, result⟩
    rw [appended] at failed
    cases failed
    rfl

theorem encodedLength_of_encode {code : Bytes} (encoded : encode r instructions = .ok code) :
    encodedLength r instructions = .ok code.length := by
  rw [encode_eq_flatten] at encoded
  obtain ⟨pieces, each, joined⟩ := exists_of_bind_eq_ok encoded
  cases joined
  have lengths : instructions.mapM (Instruction.encodedLength r) =
      .ok (pieces.map List.length) := by
    have pointwise := forall₂_of_mapM_eq_ok each
    clear each encoded
    induction pointwise with
    | nil => rfl
    | cons head _ ih =>
      rw [List.mapM_cons, Instruction.encodedLength_of_encode head, ih]
      rfl
  rw [encodedLength, lengths, List.length_flatten]
  rfl

theorem encodedLength_le {n : Nat} (measured : encodedLength r instructions = .ok n) :
    n ≤ 5 * instructions.length := by
  obtain ⟨lengths, each, total⟩ := exists_of_bind_eq_ok measured
  cases total
  have pointwise := forall₂_of_mapM_eq_ok each
  clear each measured
  induction pointwise with
  | nil => decide
  | cons head _ ih =>
    have small := Instruction.encodedLength_le_five head
    rw [List.foldr_cons, List.length_cons]
    omega

end Code

end JvmAssembler
