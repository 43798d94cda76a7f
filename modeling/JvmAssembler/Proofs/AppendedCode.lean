import Mathlib.Data.List.Basic
import JvmAssembler.Proofs.WriteOutcome

/-!
# Code grows at its end

Appending an instruction leaves the code in front of it alone, and what it appends depends on the
instruction and on the indices of its symbols only. The length of an instruction is found without
its bytes; the two agree wherever there are bytes. An instruction fails to be appended exactly when
a symbol of it is missing or has no index.
-/

set_option autoImplicit false
set_option relaxedAutoImplicit false

namespace JvmAssembler

def Resolver.Misses (r : Resolver) : Option Symbol → Prop
  | none => True
  | some s => ∃ f, r s = .error f

private theorem bind_eq_error_iff {ε α β : Type} {x : Except ε α} {k : α → Except ε β} {e : ε} :
    x >>= k = .error e ↔ x = .error e ∨ ∃ a, x = .ok a ∧ k a = .error e := by
  constructor
  · intro failed
    cases x with
    | error e' =>
      cases failed
      exact Or.inl rfl
    | ok a => exact Or.inr ⟨a, rfl, failed⟩
  · rintro (rfl | ⟨a, rfl, failed⟩)
    · rfl
    · exact failed

namespace Instruction

variable {r : Resolver}

private theorem resolveConstant_eq_error_iff {op : Opcode} {s : Symbol} {f : Failure} :
    resolveConstant r op (some s) = .error f ↔ r s = .error f := by
  rw [resolveConstant, bind_eq_error_iff]
  constructor
  · rintro (failed | ⟨index, -, failed⟩)
    · exact failed
    · split at failed
      · split_ifs at failed
        · cases failed
        · cases failed
      · cases failed
  · intro failed
    exact Or.inl failed

private theorem exists_error_of_encode_iff (r : Resolver) (i : Instruction) :
    (∃ f, i.encode r = .error f) ↔ ∃ symbol ∈ i.symbols, Resolver.Misses r symbol := by
  cases i with
  | bare op => simp [encode, symbols]
  | byte op value => simp [encode, symbols]
  | short op value => simp [encode, symbols]
  | slot op index => simp [encode, symbols]
  | constant op symbol =>
    simp only [symbols, List.mem_singleton, exists_eq_left]
    cases symbol with
    | none => exact ⟨fun _ => trivial, fun _ => ⟨_, rfl⟩⟩
    | some s =>
      have chosen : ∀ f, (Instruction.constant op (some s)).encode r = .error f ↔
          r s = .error f := by
        intro f
        rw [encode, bind_eq_error_iff, resolveConstant_eq_error_iff]
        constructor
        · rintro (failed | ⟨⟨code, index⟩, -, failed⟩)
          · exact failed
          · dsimp only at failed
            split_ifs at failed
            · cases failed
            · cases failed
        · intro failed
          exact Or.inl failed
      simp only [chosen]
      rfl
  | constantPair op first second =>
    simp only [symbols, List.mem_cons, List.not_mem_nil, or_false, exists_eq_or_imp,
      exists_eq_left]
    cases first with
    | none => exact ⟨fun _ => Or.inl trivial, fun _ => ⟨_, rfl⟩⟩
    | some a =>
      cases second with
      | none => exact ⟨fun _ => Or.inr trivial, fun _ => ⟨_, rfl⟩⟩
      | some b =>
        change (∃ f, (r a >>= fun i => r b >>= fun j => _) = Except.error f) ↔
          (∃ f, r a = .error f) ∨ ∃ f, r b = .error f
        cases r a with
        | error f => exact ⟨fun _ => Or.inl ⟨f, rfl⟩, fun _ => ⟨f, rfl⟩⟩
        | ok i =>
          cases r b with
          | error f => exact ⟨fun _ => Or.inr ⟨f, rfl⟩, fun _ => ⟨f, rfl⟩⟩
          | ok j =>
            constructor
            · rintro ⟨f, failed⟩
              cases failed
            · rintro (⟨f, failed⟩ | ⟨f, failed⟩)
              · cases failed
              · cases failed

private theorem appends_or_fails (r : Resolver) (i : Instruction) :
    (∃ bytes : Bytes, i.encodedLength r = .ok bytes.length ∧
        ∀ front, i.appendTo r front = (front ++ bytes, .ok ())) ∨
      ∃ f, ∀ front, i.appendTo r front = (front, .error f) := by
  cases encoded : i.encode r with
  | ok bytes =>
    exact Or.inl ⟨bytes, encodedLength_of_encode encoded, appendTo_of_encode_eq_ok encoded⟩
  | error f => exact Or.inr ⟨f, appendTo_of_encode_eq_error encoded⟩

end Instruction

namespace Code

variable {r : Resolver}

theorem encode_nil (r : Resolver) : encode r [] = .ok [] := rfl

theorem encode_cons (r : Resolver) (i : Instruction) (instructions : List Instruction) :
    encode r (i :: instructions) =
      i.encode r >>= fun first => encode r instructions >>= fun rest => pure (first ++ rest) := by
  rw [encode_eq_flatten, List.mapM_cons, encode_eq_flatten]
  cases i.encode r with
  | error f => rfl
  | ok first =>
    cases instructions.mapM (Instruction.encode r) with
    | error f => rfl
    | ok pieces => rfl

private theorem encode_append (r : Resolver) (instructions more : List Instruction) :
    encode r (instructions ++ more) =
      encode r instructions >>= fun front =>
        encode r more >>= fun back => pure (front ++ back) := by
  rw [encode_eq_flatten, List.mapM_append, encode_eq_flatten, encode_eq_flatten]
  cases instructions.mapM (Instruction.encode r) with
  | error f => rfl
  | ok front =>
    cases more.mapM (Instruction.encode r) with
    | error f => rfl
    | ok back => exact congrArg Except.ok List.flatten_append

private theorem exists_error_of_encode_iff (r : Resolver) (instructions : List Instruction) :
    (∃ f, encode r instructions = .error f) ↔
      ∃ i ∈ instructions, ∃ symbol ∈ i.symbols, Resolver.Misses r symbol := by
  induction instructions with
  | nil => simp [encode_nil]
  | cons i instructions ih =>
    rw [List.exists_mem_cons_iff, ← Instruction.exists_error_of_encode_iff, ← ih, encode_cons]
    cases i.encode r with
    | error f => exact ⟨fun _ => Or.inl ⟨f, rfl⟩, fun _ => ⟨f, rfl⟩⟩
    | ok first =>
      cases encode r instructions with
      | error f => exact ⟨fun _ => Or.inr ⟨f, rfl⟩, fun _ => ⟨f, rfl⟩⟩
      | ok rest =>
        constructor
        · rintro ⟨f, failed⟩
          cases failed
        · rintro (⟨f, failed⟩ | ⟨f, failed⟩)
          · cases failed
          · cases failed

private theorem appendAll_of_encode_eq_ok {instructions : List Instruction} {code : Bytes}
    (encoded : encode r instructions = .ok code) (front : Array UInt8) :
    appendAll r front instructions = (front ++ code, .ok ()) := by
  rw [encode_eq_flatten] at encoded
  obtain ⟨pieces, each, joined⟩ := exists_of_bind_eq_ok encoded
  cases joined
  exact appendAll_of_mapM_eq_ok each front

private theorem appendAll_of_encode_eq_error {instructions : List Instruction} {f : Failure}
    (failed : encode r instructions = .error f) (front : Array UInt8) :
    (appendAll r front instructions).2 = .error f := by
  rw [encode_eq_flatten] at failed
  cases each : instructions.mapM (Instruction.encode r) with
  | ok pieces =>
    rw [each] at failed
    cases failed
  | error g =>
    rw [each] at failed
    cases failed
    exact appendAll_of_mapM_eq_error each front

/-- Appending an instruction either puts bytes behind the code that are the same for all code and as
many as its length says, or fails and leaves the code alone. So the code of instructions is what
appending them one after the other gives, it is as long as their lengths say, and the code of two
lists is that of one behind that of the other. There is none exactly when a symbol is missing or has
no index, which is also so whenever a length fails. -/
theorem encode_appends_measured_code (r : Resolver) :
    (∀ i : Instruction,
      (∃ bytes : Bytes, i.encodedLength r = .ok bytes.length ∧
          ∀ front, i.appendTo r front = (front ++ bytes, .ok ())) ∨
        ∃ f, ∀ front, i.appendTo r front = (front, .error f)) ∧
    ∀ instructions : List Instruction,
      (∀ code, encode r instructions = .ok code →
        encodedLength r instructions = .ok code.length ∧
          ∀ front, appendAll r front instructions = (front ++ code, .ok ())) ∧
      (∀ f, encode r instructions = .error f →
        ∀ front, (appendAll r front instructions).2 = .error f) ∧
      (∀ more, encode r (instructions ++ more) = (do
        let front ← encode r instructions
        let back ← encode r more
        pure (front ++ back))) ∧
      ((∃ f, encode r instructions = .error f) ↔
        ∃ i ∈ instructions, ∃ symbol ∈ i.symbols, Resolver.Misses r symbol) ∧
      ∀ f, encodedLength r instructions = .error f → ∃ g, encode r instructions = .error g := by
  refine ⟨Instruction.appends_or_fails r, fun instructions => ⟨?_, ?_, ?_, ?_, ?_⟩⟩
  · intro code encoded
    exact ⟨encodedLength_of_encode encoded, appendAll_of_encode_eq_ok encoded⟩
  · intro f failed
    exact appendAll_of_encode_eq_error failed
  · exact encode_append r instructions
  · exact exists_error_of_encode_iff r instructions
  · intro f unmeasured
    cases encoded : encode r instructions with
    | error g => exact ⟨g, rfl⟩
    | ok code =>
      rw [encodedLength_of_encode encoded] at unmeasured
      cases unmeasured

def sparseResolver : Resolver
  | .string _ => .ok 300
  | .integer _ => .ok 7
  | s => .error (.because .invariant "pool.Lookup" (.neverInterned s))

def bothWidths : List Instruction :=
  [.constant .ldc (some (.string "x")), .constant .ldcW (some (.integer 70000))]

theorem encode_appends_bothWidths :
    encode sparseResolver bothWidths = .ok [0x13, 1, 44, 0x12, 7] ∧
      encodedLength sparseResolver bothWidths = .ok 5 ∧
      appendAll sparseResolver #[0xB1] bothWidths = (#[0xB1, 0x13, 1, 44, 0x12, 7], .ok ()) ∧
      ∃ g, encode sparseResolver (bothWidths ++ [.constant .ldc none]) = .error g := by
  obtain ⟨-, laws⟩ := encode_appends_measured_code sparseResolver
  have encoded : encode sparseResolver bothWidths = .ok [0x13, 1, 44, 0x12, 7] := rfl
  obtain ⟨length, appended⟩ := (laws bothWidths).1 _ encoded
  refine ⟨encoded, length, appended #[0xB1], ?_⟩
  exact (laws (bothWidths ++ [.constant .ldc none])).2.2.2.2 _ rfl

end Code

end JvmAssembler
