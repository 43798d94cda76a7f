import JvmAssembler.Proofs.ClassFileRoundTrip
import JvmAssembler.Proofs.RowCoverage

/-!
# Disassembly undoes encoding

The code of instructions whose opcodes take the operands they have is disassembled into one row for
each of them. The encoder takes the width of an instruction from its shape and its pool index, the
disassembler from the opcode alone; both come to the same bytes.
-/

set_option autoImplicit false
set_option relaxedAutoImplicit false

namespace JvmAssembler

namespace Opcode

/-- The opcode that an instruction with one pool index is encoded with: `ldc` and `ldc_w` are one
instruction, whose width the index decides. -/
def encodedWith (op : Opcode) (index : UInt16) : Opcode :=
  if op = ldc ∨ op = ldcW then if index.toNat ≤ 255 then ldc else ldcW else op

private theorem fullWidth_of_mem_table : ∀ info ∈ table, info.form = .constant →
    info.opcode = ldc ∨ info.opcode = ldcW ∨
      info.opcode.fullWidth = info.opcode ∧ info.opcode.narrow? = none := by
  decide

private theorem fullWidth_of_form? {op : Opcode} (formed : op.form? = some .constant) :
    op = ldc ∨ op = ldcW ∨ op.fullWidth = op ∧ op.narrow? = none := by
  obtain ⟨info, known, shape⟩ := exists_info?_of_form? formed
  obtain ⟨member, rfl⟩ := mem_table_of_info? known
  exact fullWidth_of_mem_table info member shape

end Opcode

namespace Instruction

def form : Instruction → Form
  | .bare _ => .bare
  | .byte _ _ => .byte
  | .short _ _ => .short
  | .slot _ _ => .slot
  | .constant _ _ => .constant
  | .constantPair _ _ _ => .constantPair

def Formed (i : Instruction) : Prop := i.givenOpcode.form? = some i.form

instance (i : Instruction) : Decidable i.Formed :=
  inferInstanceAs (Decidable (i.givenOpcode.form? = some i.form))

/-- What a row says about an instruction, besides its offset, when symbols have their indices in a
pool. -/
def ShownBy (x : PoolIndex) (r : Row) : Instruction → Prop
  | .bare op => r.opcode = op ∧ r.operands = [] ∧ r.remark = [] ∧ r.literal? = none
  | .byte op value =>
    r.opcode = op ∧ r.operands = [value.toInt] ∧ r.remark = [] ∧ r.literal? = none
  | .short op value =>
    r.opcode = op ∧ r.operands = [value.toInt] ∧ r.remark = [] ∧ r.literal? = none
  | .slot op index =>
    r.opcode = op ∧ r.operands = [(index.toNat : Int)] ∧
      r.remark = .concat ["local_", .decimal index.toNat] ∧ r.literal? = none
  | .constant op symbol =>
    ∃ s index, symbol = some s ∧ x.lookup s = .ok index ∧ r.opcode = op.encodedWith index ∧
      r.operands = [(index.toNat : Int)] ∧ r.remark = s.text ∧
      r.literal? = if s.tag = .string ∨ s.tag = .integer then some s else none
  | .constantPair _ _ _ => False

private theorem encode_dualWidth {r : Resolver} {op : Opcode}
    (dual : op = .ldc ∨ op = .ldcW) {s : Symbol} {index : UInt16} (found : r s = .ok index) :
    (Instruction.constant op (some s)).encode r =
      .ok (if index.toNat ≤ 255 then [Opcode.ldc.byte, index.toUInt8]
        else Opcode.ldcW.byte :: BigEndian.u2 index) := by
  have full : op.fullWidth = .ldcW := by
    rcases dual with rfl | rfl
    · rfl
    · rfl
  have narrow : Opcode.ldcW.narrow? = some .ldc := rfl
  have chosen : resolveConstant r op (some s) =
      .ok (if index.toNat ≤ 255 then .ldc else .ldcW, index) := by
    simp only [resolveConstant, found, full, narrow]
    change (if index.toNat ≤ 255 then pure (Opcode.ldc, index) else pure (Opcode.ldcW, index)) = _
    split_ifs
    · rfl
    · rfl
  rw [encode, chosen, full]
  split_ifs
  · rfl
  · rfl

private theorem encode_fullWidth {r : Resolver} {op : Opcode} (full : op.fullWidth = op)
    (single : op.narrow? = none) {s : Symbol} {index : UInt16} (found : r s = .ok index) :
    (Instruction.constant op (some s)).encode r = .ok (op.byte :: BigEndian.u2 index) := by
  have chosen : resolveConstant r op (some s) = .ok (op, index) := by
    simp only [resolveConstant, found, full, single]
    rfl
  rw [encode, chosen, full]
  change (if op ≠ op then _ else _) = _
  rw [if_neg (not_not.mpr rfl)]
  rfl

private theorem encode_constant {r : Resolver} {op : Opcode} (formed : op.form? = some .constant)
    {s : Symbol} {index : UInt16} (found : r s = .ok index) :
    (op.encodedWith index).form? = some .constant ∧
      index.toNat < 256 ^ (op.encodedWith index).operandSize ∧
      (Instruction.constant op (some s)).encode r = .ok ((op.encodedWith index).byte ::
        BigEndian.bytes (op.encodedWith index).operandSize index.toNat) := by
  have bound := index.toNat_lt
  by_cases dual : op = .ldc ∨ op = .ldcW
  · rw [encode_dualWidth dual found, Opcode.encodedWith, if_pos dual]
    split_ifs with small
    · refine ⟨rfl, Nat.lt_succ_of_le small, ?_⟩
      have low : index.toUInt8 = index.toNat.toUInt8 := by
        apply UInt8.toNat_inj.mp
        rw [UInt16.toNat_toUInt8, Nat.toUInt8, UInt8.toNat_ofNat']
      rw [low]
      rfl
    · exact ⟨rfl, bound, rfl⟩
  · obtain ⟨notNarrow, notWide⟩ := not_or.mp dual
    obtain ⟨full, single⟩ :=
      ((Opcode.fullWidth_of_form? formed).resolve_left notNarrow).resolve_left notWide
    have size := (Opcode.operandSize_of_form? formed).2.2.2 rfl
    rw [if_neg notNarrow] at size
    rw [encode_fullWidth full single found, Opcode.encodedWith, if_neg dual, size]
    exact ⟨formed, bound, rfl⟩

end Instruction

namespace Disassembly

section

variable {t : Table} {x : PoolIndex}

private theorem exists_row_of_operandOf {i : Instruction} {op : Opcode} {form : Form}
    (formed : op.form? = some form) (raw : Bytes)
    (whole : raw.length = if form = .bare then 0 else op.operandSize) {operand : Operand}
    (decoded : operandOf x.entries form raw = .ok operand) (offset : Nat)
    (encoded : i.encode x.lookup = .ok (op.byte :: raw))
    (shown : i.ShownBy x ⟨offset, op, operand⟩) :
    ∃ row : Row, row.offset = offset ∧ row.Sound x.entries ∧
      i.encode x.lookup = .ok row.bytes ∧ i.ShownBy x row := by
  obtain ⟨sound, bytes⟩ := sound_of_operandOf formed raw whole decoded offset
  refine ⟨_, rfl, sound, ?_, shown⟩
  rw [bytes, encoded]

theorem exists_row_of_encode (resolved : t.resolve = .ok x) {i : Instruction} (formed : i.Formed)
    (held : ∀ symbol ∈ i.symbols, t.Holds symbol) (offset : Nat) :
    ∃ row : Row, row.offset = offset ∧ row.Sound x.entries ∧
      i.encode x.lookup = .ok row.bytes ∧ i.ShownBy x row := by
  cases i with
  | bare op =>
    change op.form? = some .bare at formed
    exact exists_row_of_operandOf formed [] rfl rfl offset rfl ⟨rfl, rfl, rfl, rfl⟩
  | byte op value =>
    change op.form? = some .byte at formed
    have size := (Opcode.operandSize_of_form? formed).1 rfl
    have decoded : operandOf x.entries .byte [value.toUInt8] = .ok (.immediate value.toInt) := by
      simp [operandOf, BigEndian.value]
    exact exists_row_of_operandOf formed [value.toUInt8] size.symm decoded offset rfl
      ⟨rfl, rfl, rfl, rfl⟩
  | short op value =>
    change op.form? = some .short at formed
    have size := (Opcode.operandSize_of_form? formed).2.1 rfl
    have number := BigEndian.value_bytes 2 value.toUInt16.toNat_lt
    have decoded : operandOf x.entries .short (BigEndian.u2 value.toUInt16) =
        .ok (.immediate value.toInt) := by
      rw [operandOf, BigEndian.u2, number]
      simp
    exact exists_row_of_operandOf formed (BigEndian.u2 value.toUInt16) size.symm decoded offset rfl
      ⟨rfl, rfl, rfl, rfl⟩
  | slot op index =>
    change op.form? = some .slot at formed
    have size := (Opcode.operandSize_of_form? formed).2.2.1 rfl
    have decoded : operandOf x.entries .slot [index] = .ok (.slot index) := by
      simp [operandOf, BigEndian.value]
    exact exists_row_of_operandOf formed [index] size.symm decoded offset rfl ⟨rfl, rfl, rfl, rfl⟩
  | constant op symbol =>
    change op.form? = some .constant at formed
    obtain ⟨s, rfl, interned⟩ := held symbol List.mem_cons_self
    have found := Table.lookup_of_contains resolved interned
    generalize UInt16.ofNat (t.ranked.idxOf s + 1) = index at found
    obtain ⟨chosen, small, encoded⟩ := Instruction.encode_constant formed found
    have number := BigEndian.value_bytes _ small
    have decoded : operandOf x.entries .constant
        (BigEndian.bytes (op.encodedWith index).operandSize index.toNat) =
          .ok (.constant index.toNat s) := by
      rw [operandOf_constant_eq_ok_iff, number]
      exact ⟨s, ClassFile.symbolIn_of_lookup resolved found, rfl⟩
    refine exists_row_of_operandOf chosen _ (BigEndian.length_bytes _ _) decoded offset encoded
      ⟨s, index, rfl, found, rfl, rfl, rfl, ?_⟩
    cases s <;> rfl
  | constantPair op first second =>
    obtain ⟨info, known, shape⟩ := Opcode.exists_info?_of_form? formed
    exact absurd shape (Opcode.operandWidth_of_info? known).1

private theorem exists_covers_of_encode (resolved : t.resolve = .ok x)
    {instructions : List Instruction} (formed : ∀ i ∈ instructions, i.Formed)
    (held : ∀ i ∈ instructions, ∀ symbol ∈ i.symbols, t.Holds symbol) (offset : Nat) :
    ∃ rows, Covers x.entries offset (rows.flatMap Row.bytes) rows ∧
      List.Forall₂ (fun i row => i.encode x.lookup = .ok (Row.bytes row)) instructions rows ∧
      List.Forall₂ (fun i row => i.ShownBy x row) instructions rows := by
  induction instructions generalizing offset with
  | nil => exact ⟨[], covers_nil.mpr rfl, .nil, .nil⟩
  | cons i instructions ih =>
    obtain ⟨firstFormed, formed⟩ := List.forall_mem_cons.mp formed
    obtain ⟨firstHeld, held⟩ := List.forall_mem_cons.mp held
    obtain ⟨row, here, sound, encoded, shown⟩ :=
      exists_row_of_encode resolved firstFormed firstHeld offset
    obtain ⟨rows, covers, allEncoded, allShown⟩ := ih formed held row.endOffset
    refine ⟨row :: rows, ?_, .cons encoded allEncoded, .cons shown allShown⟩
    exact covers_cons.mpr ⟨here, sound, rows.flatMap Row.bytes, List.flatMap_cons, covers⟩

end

private theorem encode_of_forall₂ {r : Resolver} {instructions : List Instruction} {rows : List Row}
    (each : List.Forall₂ (fun i row => i.encode r = .ok (Row.bytes row)) instructions rows) :
    Code.encode r instructions = .ok (rows.flatMap Row.bytes) := by
  have pieces : instructions.mapM (Instruction.encode r) = .ok (rows.map Row.bytes) := by
    induction each with
    | nil => rfl
    | cons head _ ih =>
      rw [List.mapM_cons, head, ih]
      rfl
  rw [Code.encode_eq_flatten, pieces, List.flatMap_def]
  rfl

private theorem Covers.offset_eq {pool : Array Symbol} {offset : Nat} {code : Bytes}
    {rows : List Row} (covers : Covers pool offset code rows) {k : Nat} {row : Row}
    (listed : rows[k]? = some row) :
    row.offset = offset + ((rows.take k).flatMap Row.bytes).length := by
  induction rows generalizing offset code k with
  | nil => cases listed
  | cons first rows ih =>
    obtain ⟨here, sound, after, -, covers⟩ := covers_cons.mp covers
    cases k with
    | zero =>
      cases listed
      exact here
    | succ k =>
      rw [ih covers listed, sound.endOffset_eq, here, List.take_succ_cons, List.flatMap_cons,
        List.length_append, Nat.add_assoc]

/-- Disassembling the code of instructions gives them back. If their opcodes take the operands they
have and their symbols are in the pool, they can be encoded, and the code has one row for each of
them, which shows it and starts behind the code of those before it. -/
theorem rows_of_encoded_instructions {t : Table} {x : PoolIndex} (resolved : t.resolve = .ok x)
    {instructions : List Instruction} (formed : ∀ i ∈ instructions, i.Formed)
    (held : ∀ i ∈ instructions, ∀ symbol ∈ i.symbols, t.Holds symbol) {f : ClassFile}
    (pool : f.pool = x.entries) :
    ∃ code rows, Code.encode x.lookup instructions = .ok code ∧
      Disassembly.rows f.pool code = .ok rows ∧
      List.Forall₂ (fun i row => i.ShownBy x row) instructions rows ∧
      ∀ k row, rows[k]? = some row →
        Code.encodedLength x.lookup (instructions.take k) = .ok row.offset := by
  obtain ⟨rows, covers, encoded, shown⟩ := exists_covers_of_encode resolved formed held 0
  refine ⟨rows.flatMap Row.bytes, rows, encode_of_forall₂ encoded, ?_, shown, ?_⟩
  · rw [pool]
    exact rows_eq_ok_iff.mpr covers
  · intro k row listed
    have front := encode_of_forall₂ (List.forall₂_take k encoded)
    rw [Code.encodedLength_of_encode front, covers.offset_eq listed, Nat.zero_add]

def greetingInstructions : List Instruction :=
  [.byte .bipush (-1), .constant .ldcW (some (.string "hé")), .short .sipush (-2),
    .slot .istore 200, .constant .ldc (some (.string "hé")), .bare .vreturn]

theorem rows_of_greetingInstructions :
    ∃ x code rows, ClassFile.greetingTable.resolve = .ok x ∧
      (∀ i ∈ greetingInstructions, i.Formed) ∧
      Code.encode x.lookup greetingInstructions = .ok code ∧
      Disassembly.rows x.entries code = .ok rows ∧
      List.Forall₂ (fun i row => i.ShownBy x row) greetingInstructions rows := by
  have resolved := Table.resolve_eq_ok_iff.mpr
    ⟨ClassFile.greeting_fits.size_le, ClassFile.greeting_consistent.closed, rfl⟩
  have formed : ∀ i ∈ greetingInstructions, i.Formed := by decide
  have held : ∀ i ∈ greetingInstructions, ∀ symbol ∈ i.symbols,
      ClassFile.greetingTable.Holds symbol := by
    have only : ∀ i ∈ greetingInstructions, ∀ symbol ∈ i.symbols,
        symbol = some (.string "hé") := by decide
    intro i member symbol used
    rw [only i member symbol used]
    exact ⟨_, rfl, (ClassFile.contains_greetingTable _).mpr (by decide)⟩
  obtain ⟨code, rows, encoded, listed, shown, -⟩ := rows_of_encoded_instructions
    (f := { pairFile with pool := (PoolIndex.ofEntries ClassFile.greetingTable.ranked).entries })
    resolved formed held rfl
  exact ⟨_, code, rows, resolved, formed, encoded, listed, shown⟩

end Disassembly

end JvmAssembler
