import Mathlib.Data.List.Induction
import Mathlib.Tactic.SplitIfs
import JvmAssembler.Disassembly
import JvmAssembler.Proofs.FieldReading

/-!
# Rows and the code they cover

A row of disassembled code tells which bytes it stands for: its opcode, and its operands in as many
bytes as the opcode takes. Code can be disassembled exactly when it is made of complete
instructions, and its rows then cover it from end to end.
-/

set_option autoImplicit false
set_option relaxedAutoImplicit false

namespace JvmAssembler

namespace Opcode

def form? (c : Opcode) : Option Form := c.info?.map OpcodeInfo.form

/-- The number of bytes that an operand takes: one for the number of `bipush`, for the slot of a
local variable and for the pool index of `ldc`, two for everything else. -/
def operandSize (c : Opcode) : Nat :=
  if c ∈ [bipush, iload, istore, aload, astore, ldc] then 1 else 2

section

variable {c : Opcode} {info : OpcodeInfo}

private theorem form?_of_info? (known : c.info? = some info) : c.form? = some info.form := by
  rw [form?, known]
  rfl

theorem exists_info?_of_form? {form : Form} (formed : c.form? = some form) :
    ∃ info, c.info? = some info ∧ info.form = form := Option.map_eq_some_iff.mp formed

theorem mem_table_of_info? (known : c.info? = some info) : info ∈ table ∧ info.opcode = c := by
  refine ⟨List.mem_of_find?_eq_some known, ?_⟩
  exact beq_iff_eq.mp (List.find?_some (p := fun i : OpcodeInfo => i.opcode == c) known)

private theorem operandWidth_of_mem_table : ∀ info ∈ table, info.form ≠ .constantPair ∧
    info.operandWidth = if info.form = .bare then 0 else info.opcode.operandSize := by
  decide

private theorem operandSize_of_mem_table : ∀ info ∈ table,
    (info.form = .byte → info.opcode.operandSize = 1) ∧
      (info.form = .short → info.opcode.operandSize = 2) ∧
      (info.form = .slot → info.opcode.operandSize = 1) ∧
      (info.form = .constant → info.opcode.operandSize = if info.opcode = ldc then 1 else 2) := by
  decide

theorem operandSize_of_form? {form : Form} (formed : c.form? = some form) :
    (form = .byte → c.operandSize = 1) ∧ (form = .short → c.operandSize = 2) ∧
      (form = .slot → c.operandSize = 1) ∧
      (form = .constant → c.operandSize = if c = ldc then 1 else 2) := by
  obtain ⟨info, known, rfl⟩ := exists_info?_of_form? formed
  obtain ⟨member, rfl⟩ := mem_table_of_info? known
  exact operandSize_of_mem_table info member

theorem operandWidth_of_info? (known : c.info? = some info) : info.form ≠ .constantPair ∧
    info.operandWidth = if info.form = .bare then 0 else c.operandSize := by
  obtain ⟨member, rfl⟩ := mem_table_of_info? known
  exact operandWidth_of_mem_table info member

end

end Opcode

namespace Row

/-- The bytes of a row: its opcode and its operands, each in as many bytes as the opcode takes,
negative ones in two's complement. -/
def bytes (r : Row) : Bytes :=
  r.opcode.byte :: r.operands.flatMap fun v =>
    BigEndian.bytes r.opcode.operandSize (v % (256 ^ r.opcode.operandSize : Nat) : Int).toNat

def Sound (pool : Array Symbol) (r : Row) : Prop :=
  match r.operand with
  | .bare => r.opcode.form? = some .bare
  | .immediate v =>
    r.opcode.form? = some .byte ∧ -128 ≤ v ∧ v ≤ 127 ∨
      r.opcode.form? = some .short ∧ -32768 ≤ v ∧ v ≤ 32767
  | .slot _ => r.opcode.form? = some .slot
  | .constant i s =>
    r.opcode.form? = some .constant ∧ i < 256 ^ r.opcode.operandSize ∧
      ClassFile.symbolIn pool i = some s
  | .constantPair _ _ _ _ => False

private theorem bytes_eq_iff {r : Row} {v : Int} (only : r.operands = [v]) {raw : Bytes}
    (whole : raw.length = r.opcode.operandSize) :
    r.bytes = r.opcode.byte :: raw ↔
      BigEndian.value raw = (v % (256 ^ r.opcode.operandSize : Nat) : Int).toNat := by
  have positive : 0 < 256 ^ r.opcode.operandSize := Nat.pow_pos (by decide)
  have residue := Int.emod_lt_of_pos v (Int.natCast_pos.mpr positive)
  rw [bytes, only, List.flatMap_singleton, List.cons_inj_right,
    BigEndian.bytes_eq_iff (by omega) whole]

end Row

namespace Disassembly

private theorem toNat_emod_of_lt {m n : Nat} (small : n < m) : ((n : Int) % m).toNat = n := by
  rw [Int.emod_eq_of_lt (Int.natCast_nonneg n) (Int.ofNat_lt.mpr small), Int.toNat_natCast]

private theorem bmod_eq_iff {m n : Nat} (small : n < m) {v : Int} :
    (n : Int).bmod m = v ↔ (-(m / 2 : Int) ≤ v ∧ v < (m + 1 : Int) / 2) ∧ n = (v % m).toNat := by
  have positive : 0 < m := Nat.lt_of_le_of_lt (Nat.zero_le n) small
  constructor
  · rintro rfl
    refine ⟨⟨Int.le_bmod positive, Int.bmod_lt positive⟩, ?_⟩
    rw [Int.bmod_emod, toNat_emod_of_lt small]
  · rintro ⟨⟨low, high⟩, residue⟩
    have same : (n : Int) = v % m := by
      have nonneg := Int.emod_nonneg v (b := m) (by omega)
      omega
    rw [same, Int.emod_bmod, Int.bmod_eq_of_le low high]

private theorem symbolAt_eq_ok_iff {pool : Array Symbol} {index : Nat} {s : Symbol} :
    symbolAt pool index = .ok s ↔ ClassFile.symbolIn pool index = some s := by
  rw [symbolAt]
  cases ClassFile.symbolIn pool index with
  | none => simp
  | some r => simp

section

variable {pool : Array Symbol} {op : Opcode} {info : OpcodeInfo} {raw : Bytes}

private theorem operandOf_byte (pool : Array Symbol) (raw : Bytes) :
    operandOf pool .byte raw = .ok (.immediate ((BigEndian.value raw : Int).bmod 256)) := by
  simp [operandOf]

private theorem operandOf_short (pool : Array Symbol) (raw : Bytes) :
    operandOf pool .short raw = .ok (.immediate ((BigEndian.value raw : Int).bmod 65536)) := by
  simp [operandOf]

theorem operandOf_constant_eq_ok_iff {operand : Operand} :
    operandOf pool .constant raw = .ok operand ↔
      ∃ s, ClassFile.symbolIn pool (BigEndian.value raw) = some s ∧
        operand = .constant (BigEndian.value raw) s := by
  simp only [← symbolAt_eq_ok_iff, operandOf]
  cases symbolAt pool (BigEndian.value raw) with
  | error e => simp [Except.map]
  | ok s => simp [Except.map, eq_comm]

private theorem operandOf_eq_ok_iff (known : op.info? = some info)
    (whole : raw.length = info.operandWidth) (offset : Nat) {operand : Operand} :
    operandOf pool info.form raw = .ok operand ↔
      Row.Sound pool ⟨offset, op, operand⟩ ∧
        Row.bytes ⟨offset, op, operand⟩ = op.byte :: raw := by
  obtain ⟨single, width⟩ := Opcode.operandWidth_of_info? known
  have formed := Opcode.form?_of_info? known
  by_cases bare : info.form = .bare
  · have empty : raw = [] := by
      rw [width, if_pos bare] at whole
      exact List.eq_nil_of_length_eq_zero whole
    rw [bare] at formed ⊢
    rw [empty]
    cases operand <;> simp [operandOf, Row.Sound, Row.bytes, Row.operands, formed]
  · rw [if_neg bare] at width
    rw [width] at whole
    have bound := BigEndian.value_lt raw
    rw [whole] at bound
    cases shape : info.form with
    | bare => exact absurd shape bare
    | byte =>
      rw [shape] at formed
      have size := (Opcode.operandSize_of_form? formed).1 rfl
      have power : 256 ^ op.operandSize = 256 := by simp [size]
      rw [power] at bound
      cases operand with
      | immediate v =>
        rw [Row.bytes_eq_iff rfl whole, operandOf_byte, Except.ok.injEq, Operand.immediate.injEq,
          bmod_eq_iff bound]
        simp only [Row.Sound, formed, power]
        refine and_congr_left fun _ => ?_
        simp only [true_and, Option.some.injEq, reduceCtorEq, false_and, or_false]
        omega
      | _ => simp [operandOf_byte, Row.Sound, formed]
    | short =>
      rw [shape] at formed
      have size := (Opcode.operandSize_of_form? formed).2.1 rfl
      have power : 256 ^ op.operandSize = 65536 := by simp [size]
      rw [power] at bound
      cases operand with
      | immediate v =>
        rw [Row.bytes_eq_iff rfl whole, operandOf_short, Except.ok.injEq, Operand.immediate.injEq,
          bmod_eq_iff bound]
        simp only [Row.Sound, formed, power]
        refine and_congr_left fun _ => ?_
        simp only [true_and, Option.some.injEq, reduceCtorEq, false_and, false_or]
        omega
      | _ => simp [operandOf_short, Row.Sound, formed]
    | slot =>
      rw [shape] at formed
      have size := (Opcode.operandSize_of_form? formed).2.2.1 rfl
      have power : 256 ^ op.operandSize = 256 := by simp [size]
      rw [power] at bound
      cases operand with
      | slot index =>
        have small : index.toNat < 256 := index.toNat_lt
        rw [Row.bytes_eq_iff rfl whole]
        simp only [operandOf, Row.Sound, formed, power, Except.ok.injEq, Operand.slot.injEq,
          ← UInt8.toNat_inj, true_and]
        rw [toNat_emod_of_lt small, Nat.toUInt8, UInt8.toNat_ofNat']
        omega
      | _ => simp [operandOf, Row.Sound, formed]
    | constant =>
      rw [shape] at formed
      rw [operandOf_constant_eq_ok_iff]
      cases operand with
      | constant index s =>
        rw [Row.bytes_eq_iff rfl whole]
        simp only [Row.Sound, formed, true_and]
        constructor
        · rintro ⟨r, found, same⟩
          cases same
          exact ⟨⟨bound, found⟩, (toNat_emod_of_lt bound).symm⟩
        · rintro ⟨⟨small, found⟩, number⟩
          rw [toNat_emod_of_lt small] at number
          rw [number]
          exact ⟨s, found, rfl⟩
      | _ => simp [Row.Sound, formed]
    | constantPair => exact absurd shape single

end

end Disassembly

namespace Row

variable {pool : Array Symbol} {r : Row}

private theorem Sound.operands_cases (sound : r.Sound pool) :
    r.opcode.form? = some .bare ∧ r.operands = [] ∨
      ∃ form v, r.opcode.form? = some form ∧ form ≠ .bare ∧ r.operands = [v] := by
  obtain ⟨offset, op, operand⟩ := r
  cases operand with
  | bare => exact Or.inl ⟨sound, rfl⟩
  | immediate v =>
    rcases sound with ⟨formed, -⟩ | ⟨formed, -⟩
    · exact Or.inr ⟨.byte, v, formed, by decide, rfl⟩
    · exact Or.inr ⟨.short, v, formed, by decide, rfl⟩
  | slot index => exact Or.inr ⟨.slot, index.toNat, sound, by decide, rfl⟩
  | constant index s => exact Or.inr ⟨.constant, index, sound.1, by decide, rfl⟩
  | constantPair => exact sound.elim

private theorem Sound.exists_info? (sound : r.Sound pool) : ∃ info, r.opcode.info? = some info := by
  rcases sound.operands_cases with ⟨formed, -⟩ | ⟨form, v, formed, -⟩
  · obtain ⟨info, known, -⟩ := Opcode.exists_info?_of_form? formed
    exact ⟨info, known⟩
  · obtain ⟨info, known, -⟩ := Opcode.exists_info?_of_form? formed
    exact ⟨info, known⟩

theorem Sound.endOffset_eq (sound : r.Sound pool) : r.endOffset = r.offset + r.bytes.length := by
  obtain ⟨info, known⟩ := sound.exists_info?
  obtain ⟨-, width⟩ := Opcode.operandWidth_of_info? known
  have formed := Opcode.form?_of_info? known
  rw [endOffset, Opcode.operandWidth, known, Option.map_some, Option.getD_some, width, bytes,
    List.length_cons]
  rcases sound.operands_cases with ⟨bare, only⟩ | ⟨form, v, other, wide, only⟩
  · rw [formed] at bare
    rw [if_pos (Option.some.inj bare), only]
    rfl
  · rw [formed] at other
    rw [if_neg (Option.some.inj other ▸ wide), only, List.flatMap_singleton,
      BigEndian.length_bytes]
    omega

end Row

namespace Disassembly

private theorem next_eq_ok_iff {pool : Array Symbol} {offset : Nat} {first : UInt8}
    {rest after : Bytes} {row : Row} : next pool offset first rest = .ok (row, after) ↔
      row.offset = offset ∧ row.Sound pool ∧ first :: rest = row.bytes ++ after := by
  constructor
  · intro read
    unfold next at read
    dsimp only at read
    split at read
    · cases read
    · rename_i info known
      split_ifs at read with short
      have whole : (rest.take info.operandWidth).length = info.operandWidth :=
        Nat.le_antisymm (List.length_take_le _ _) (Nat.le_of_not_lt short)
      cases decoded : operandOf pool info.form (rest.take info.operandWidth) with
      | error e =>
        rw [decoded] at read
        cases read
      | ok operand =>
        rw [decoded] at read
        cases read
        obtain ⟨sound, written⟩ := (operandOf_eq_ok_iff known whole offset).mp decoded
        refine ⟨rfl, sound, ?_⟩
        rw [written, List.cons_append, List.take_append_drop]
  · rintro ⟨rfl, sound, split⟩
    obtain ⟨info, known⟩ := sound.exists_info?
    have length := sound.endOffset_eq
    rw [Row.endOffset, Opcode.operandWidth, known] at length
    obtain ⟨offset, op, operand⟩ := row
    obtain ⟨raw, written⟩ : ∃ raw, Row.bytes ⟨offset, op, operand⟩ = op.byte :: raw := ⟨_, rfl⟩
    rw [written, List.cons_append, List.cons.injEq] at split
    obtain ⟨rfl, rfl⟩ := split
    have whole : raw.length = info.operandWidth := by
      rw [written, List.length_cons, Option.map_some, Option.getD_some] at length
      omega
    have decoded := (operandOf_eq_ok_iff known whole offset).mpr ⟨sound, written⟩
    unfold next
    dsimp only
    rw [known]
    dsimp only
    rw [← whole, List.take_left, List.drop_left, if_neg (Nat.lt_irrefl _), decoded]
    rfl

/-- Rows that follow each other without gaps up to an offset, the first of them at another. -/
def Tiles (finish : Nat) : (start : Nat) → List Row → Prop
  | start, [] => start = finish
  | start, row :: rows => row.offset = start ∧ Tiles finish row.endOffset rows

structure Covers (pool : Array Symbol) (offset : Nat) (code : Bytes) (rows : List Row) : Prop where
  sound : ∀ row ∈ rows, row.Sound pool
  tiles : Tiles (offset + code.length) offset rows
  bytes : rows.flatMap Row.bytes = code

section

variable {pool : Array Symbol} {offset : Nat} {code : Bytes} {row : Row} {rows : List Row}

theorem covers_nil : Covers pool offset code [] ↔ code = [] := by
  constructor
  · intro covers
    exact covers.bytes.symm
  · rintro rfl
    exact ⟨by simp, rfl, rfl⟩

theorem covers_cons : Covers pool offset code (row :: rows) ↔
    row.offset = offset ∧ row.Sound pool ∧
      ∃ after, code = row.bytes ++ after ∧ Covers pool row.endOffset after rows := by
  constructor
  · rintro ⟨sound, ⟨here, tiles⟩, rfl⟩
    obtain ⟨first, others⟩ := List.forall_mem_cons.mp sound
    refine ⟨here, first, rows.flatMap Row.bytes, rfl, others, ?_, rfl⟩
    rwa [List.flatMap_cons, List.length_append, ← Nat.add_assoc, ← here, ← first.endOffset_eq]
      at tiles
  · rintro ⟨here, first, after, rfl, others, tiles, bytes⟩
    refine ⟨List.forall_mem_cons.mpr ⟨first, others⟩, ⟨here, ?_⟩, ?_⟩
    · rwa [List.length_append, ← Nat.add_assoc, ← here, ← first.endOffset_eq]
    · rw [List.flatMap_cons, bytes]

private theorem covers_nil_code : Covers pool offset [] rows ↔ rows = [] := by
  cases rows with
  | nil => simp [covers_nil]
  | cons row rows =>
    constructor
    · intro covers
      cases covers.bytes
    · intro none
      cases none

private theorem rowsFrom_nil_eq_ok_iff {fuel : Nat} {found result : List Row} :
    rowsFrom pool fuel offset found [] = .ok result ↔
      ∃ rows, result = found.reverse ++ rows ∧ Covers pool offset [] rows := by
  have stopped : rowsFrom pool fuel offset found [] = .ok found.reverse := by
    cases fuel with
    | zero => rfl
    | succ fuel => rfl
  rw [stopped]
  simp [covers_nil_code, eq_comm]

/-- With a row for each byte at hand, the disassembler finds the rows that cover the code. There is
at most one choice at every step, so it finds them whenever there are any. -/
private theorem rowsFrom_eq_ok_iff {fuel : Nat} (enough : code.length ≤ fuel)
    {found result : List Row} : rowsFrom pool fuel offset found code = .ok result ↔
      ∃ rows, result = found.reverse ++ rows ∧ Covers pool offset code rows := by
  induction fuel generalizing offset found code with
  | zero =>
    rw [List.eq_nil_of_length_eq_zero (Nat.le_zero.mp enough)]
    exact rowsFrom_nil_eq_ok_iff
  | succ fuel ih =>
    cases code with
    | nil => exact rowsFrom_nil_eq_ok_iff
    | cons first rest =>
      have fewer {row : Row} {after : Bytes}
          (read : next pool offset first rest = .ok (row, after)) : after.length ≤ fuel := by
        obtain ⟨-, -, split⟩ := next_eq_ok_iff.mp read
        have lengths := congrArg List.length split
        rw [List.length_append, Row.bytes, List.length_cons, List.length_cons] at lengths
        rw [List.length_cons] at enough
        omega
      constructor
      · intro run
        rw [rowsFrom] at run
        split at run
        · cases run
        · rename_i row after read
          obtain ⟨rows, rfl, covers⟩ := (ih (fewer read)).mp run
          obtain ⟨here, sound, split⟩ := next_eq_ok_iff.mp read
          refine ⟨row :: rows, by simp, ?_⟩
          exact covers_cons.mpr ⟨here, sound, after, split, covers⟩
      · rintro ⟨rows, rfl, covers⟩
        cases rows with
        | nil => cases covers.bytes
        | cons row rows =>
          obtain ⟨here, sound, after, split, covers⟩ := covers_cons.mp covers
          have read := next_eq_ok_iff.mpr ⟨here, sound, split⟩
          rw [rowsFrom, read]
          exact (ih (fewer read)).mpr ⟨rows, by simp, covers⟩

theorem rows_eq_ok_iff : Disassembly.rows pool code = .ok rows ↔ Covers pool 0 code rows := by
  rw [Disassembly.rows, rowsFrom_eq_ok_iff (Nat.le_refl _)]
  simp

end

/-- The bytes of one complete instruction. Its opcode is known, and a pool index lies within a pool
of the given size. -/
inductive Complete (count : Nat) : Bytes → Prop where
  | bare (op : Opcode) (formed : op.form? = some .bare) : Complete count [op.byte]
  | byte (op : Opcode) (formed : op.form? = some .byte) (value : UInt8) :
    Complete count [op.byte, value]
  | short (op : Opcode) (formed : op.form? = some .short) (high low : UInt8) :
    Complete count [op.byte, high, low]
  | slot (op : Opcode) (formed : op.form? = some .slot) (index : UInt8) :
    Complete count [op.byte, index]
  | narrow (index : UInt8) (positive : 1 ≤ index.toNat) (inside : index.toNat ≤ count) :
    Complete count [Opcode.ldc.byte, index]
  | wide (op : Opcode) (formed : op.form? = some .constant) (other : op ≠ .ldc)
    (high low : UInt8) (positive : 1 ≤ high.toNat * 256 + low.toNat)
    (inside : high.toNat * 256 + low.toNat ≤ count) : Complete count [op.byte, high, low]

def WellFormed (count : Nat) (code : Bytes) : Prop :=
  ∃ pieces : List Bytes, pieces.flatten = code ∧ ∀ piece ∈ pieces, Complete count piece

private theorem exists_symbolIn_iff {pool : Array Symbol} {i : Nat} :
    (∃ s, ClassFile.symbolIn pool i = some s) ↔ 1 ≤ i ∧ i ≤ pool.size := by
  rw [ClassFile.symbolIn, Int.toNat_natCast]
  split_ifs with low
  · constructor
    · rintro ⟨s, none⟩
      cases none
    · omega
  · rw [← Option.ne_none_iff_exists', Ne, Array.getElem?_eq_none_iff]
    omega

section

variable {pool : Array Symbol}

private theorem complete_of_sound {row : Row} (sound : row.Sound pool) :
    Complete pool.size row.bytes := by
  obtain ⟨offset, op, operand⟩ := row
  cases operand with
  | bare => exact .bare op sound
  | immediate v =>
    rcases sound with ⟨formed, -⟩ | ⟨formed, -⟩
    · rw [Row.bytes, (Opcode.operandSize_of_form? formed).1 rfl]
      exact .byte op formed _
    · rw [Row.bytes, (Opcode.operandSize_of_form? formed).2.1 rfl]
      exact .short op formed _ _
  | slot index =>
    rw [Row.bytes, (Opcode.operandSize_of_form? sound).2.2.1 rfl]
    exact .slot op sound _
  | constant index s =>
    obtain ⟨formed, small, found⟩ := sound
    have size := (Opcode.operandSize_of_form? formed).2.2.2 rfl
    obtain ⟨positive, inside⟩ := exists_symbolIn_iff.mp ⟨s, found⟩
    have number := BigEndian.value_bytes op.operandSize small
    rw [Row.bytes]
    dsimp only [Row.operands]
    rw [List.flatMap_singleton, toNat_emod_of_lt small]
    split_ifs at size with narrow
    · rw [size] at number ⊢
      subst narrow
      have index_eq : index.toUInt8.toNat = index := (Nat.zero_add _).symm.trans number
      exact .narrow index.toUInt8 (by omega) (by omega)
    · rw [size] at number ⊢
      have index_eq : (index / 256).toUInt8.toNat * 256 + index.toUInt8.toNat = index := by
        simpa [BigEndian.value, BigEndian.bytes] using number
      exact .wide op formed narrow _ _ (by omega) (by omega)
  | constantPair => exact sound.elim

theorem sound_of_operandOf {op : Opcode} {form : Form} (formed : op.form? = some form) (raw : Bytes)
    (whole : raw.length = if form = .bare then 0 else op.operandSize) {operand : Operand}
    (decoded : operandOf pool form raw = .ok operand) (offset : Nat) :
    Row.Sound pool ⟨offset, op, operand⟩ ∧ Row.bytes ⟨offset, op, operand⟩ = op.byte :: raw := by
  obtain ⟨info, known, rfl⟩ := Opcode.exists_info?_of_form? formed
  rw [← (Opcode.operandWidth_of_info? known).2] at whole
  exact (operandOf_eq_ok_iff known whole offset).mp decoded

private theorem exists_row_of_constant {op : Opcode} (formed : op.form? = some .constant)
    (raw : Bytes) (whole : raw.length = op.operandSize) (positive : 1 ≤ BigEndian.value raw)
    (inside : BigEndian.value raw ≤ pool.size) (offset : Nat) :
    ∃ row : Row, row.offset = offset ∧ row.Sound pool ∧ row.bytes = op.byte :: raw := by
  obtain ⟨s, found⟩ := exists_symbolIn_iff.mpr ⟨positive, inside⟩
  exact ⟨_, rfl, sound_of_operandOf formed raw whole
    (operandOf_constant_eq_ok_iff.mpr ⟨s, found, rfl⟩) offset⟩

private theorem Complete.exists_row {piece : Bytes} (complete : Complete pool.size piece)
    (offset : Nat) : ∃ row : Row, row.offset = offset ∧ row.Sound pool ∧ row.bytes = piece := by
  cases complete with
  | bare op formed => exact ⟨_, rfl, sound_of_operandOf formed [] rfl rfl offset⟩
  | byte op formed value =>
    have size := (Opcode.operandSize_of_form? formed).1 rfl
    exact ⟨_, rfl, sound_of_operandOf formed [value] size.symm rfl offset⟩
  | short op formed high low =>
    have size := (Opcode.operandSize_of_form? formed).2.1 rfl
    exact ⟨_, rfl, sound_of_operandOf formed [high, low] size.symm rfl offset⟩
  | slot op formed index =>
    have size := (Opcode.operandSize_of_form? formed).2.2.1 rfl
    exact ⟨_, rfl, sound_of_operandOf formed [index] size.symm rfl offset⟩
  | narrow index positive inside =>
    have number : BigEndian.value [index] = index.toNat := by simp [BigEndian.value]
    rw [← number] at positive inside
    exact exists_row_of_constant rfl [index] rfl positive inside offset
  | wide op formed other high low positive inside =>
    have number : BigEndian.value [high, low] = high.toNat * 256 + low.toNat := by
      simp [BigEndian.value]
    rw [← number] at positive inside
    have size := (Opcode.operandSize_of_form? formed).2.2.2 rfl
    rw [if_neg other] at size
    exact exists_row_of_constant formed [high, low] size.symm positive inside offset

private theorem exists_covers_of_pieces {pieces : List Bytes}
    (complete : ∀ piece ∈ pieces, Complete pool.size piece) (offset : Nat) :
    ∃ rows, Covers pool offset pieces.flatten rows := by
  induction pieces generalizing offset with
  | nil => exact ⟨[], covers_nil.mpr rfl⟩
  | cons piece pieces ih =>
    obtain ⟨first, others⟩ := List.forall_mem_cons.mp complete
    obtain ⟨row, here, sound, bytes⟩ := first.exists_row offset
    obtain ⟨rows, covers⟩ := ih others row.endOffset
    refine ⟨row :: rows, covers_cons.mpr ⟨here, sound, pieces.flatten, ?_, covers⟩⟩
    rw [bytes, List.flatten_cons]

private theorem exists_covers_iff_wellFormed {code : Bytes} :
    (∃ rows, Covers pool 0 code rows) ↔ WellFormed pool.size code := by
  constructor
  · rintro ⟨rows, covers⟩
    refine ⟨rows.map Row.bytes, ?_, ?_⟩
    · rw [← List.flatMap_def]
      exact covers.bytes
    · intro piece member
      obtain ⟨row, listed, rfl⟩ := List.mem_map.mp member
      exact complete_of_sound (covers.sound row listed)
  · rintro ⟨pieces, rfl, complete⟩
    exact exists_covers_of_pieces complete 0

end

/-- The disassembler accepts exactly the code that consists of complete instructions. Its rows then
follow each other from the start of the code to its end, and writing them down gives the code back,
so that no other code has the same rows. -/
theorem rows_accepts_wellFormed_and_keeps_bytes (f : ClassFile) (code : Bytes) :
    ((∃ rows, Disassembly.rows f.pool code = .ok rows) ↔ WellFormed f.pool.size code) ∧
      ∀ rows, Disassembly.rows f.pool code = .ok rows →
        Tiles code.length 0 rows ∧ rows.flatMap Row.bytes = code ∧
          ∀ (f' : ClassFile) (code' : Bytes),
            Disassembly.rows f'.pool code' = .ok rows → code' = code := by
  constructor
  · simp only [rows_eq_ok_iff]
    exact exists_covers_iff_wellFormed
  · intro rows listed
    have covers := rows_eq_ok_iff.mp listed
    refine ⟨?_, covers.bytes, ?_⟩
    · have tiles := covers.tiles
      rwa [Nat.zero_add] at tiles
    · intro f' code' listed'
      rw [← (rows_eq_ok_iff.mp listed').bytes, covers.bytes]

def pairFile : ClassFile :=
  ⟨.default, ⟨0⟩, 0, 0, [], [], #[.utf8 "hé", .string "hé"], []⟩

def mixedCode : Bytes :=
  [0x10, 0xFF, 0x12, 0x02, 0x11, 0xFF, 0xFE, 0x13, 0x00, 0x02, 0x36, 0xFF, 0xB1]

theorem rows_keeps_mixedCode :
    ∃ rows, Disassembly.rows pairFile.pool mixedCode = .ok rows ∧ rows.length = 6 ∧
      WellFormed 2 mixedCode ∧ Tiles 13 0 rows ∧ rows.flatMap Row.bytes = mixedCode := by
  have listed : ∃ rows, Disassembly.rows pairFile.pool mixedCode = .ok rows ∧ rows.length = 6 :=
    ⟨_, rfl, rfl⟩
  obtain ⟨rows, listed, six⟩ := listed
  obtain ⟨accepted, kept⟩ := rows_accepts_wellFormed_and_keeps_bytes pairFile mixedCode
  obtain ⟨tiles, bytes, -⟩ := kept rows listed
  exact ⟨rows, listed, six, accepted.mp ⟨rows, listed⟩, tiles, bytes⟩

end Disassembly

end JvmAssembler
