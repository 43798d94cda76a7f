import JvmAssembler.Proofs.AppendedCode
import JvmAssembler.Proofs.BuilderConsistency
import JvmAssembler.Proofs.DisassemblyRoundTrip
import JvmAssembler.Proofs.MethodChanges

/-!
# Loading a number

A number is pushed by one of four instructions, the shortest that can hold it. Whichever it is, its
row shows the number that was asked for. Only a number beyond 16 bits is counted in the pool, and
one beyond 32 bits is turned down.
-/

set_option autoImplicit false
set_option relaxedAutoImplicit false

namespace JvmAssembler

/-- The number that a row pushes: the operand of `bipush` and `sipush`, the integer that `ldc` and
`ldc_w` load, and the distance from `iconst_0` for the opcodes from `iconst_m1` to `iconst_5`. -/
def Row.pushed? (r : Row) : Option Int :=
  if r.opcode = .bipush ∨ r.opcode = .sipush then r.operands.head?
  else if r.opcode = .ldc ∨ r.opcode = .ldcW then
    match r.literal? with
    | some (.integer value) => some value.toInt
    | _ => none
  else if Opcode.iconstM1.byte ≤ r.opcode.byte ∧ r.opcode.byte ≤ Opcode.iconst5.byte then
    some ((r.opcode.byte.toNat : Int) - Opcode.iconst0.byte.toNat)
  else none

namespace Code

inductive IntegerLoad (value : Int32) : Instruction → Prop where
  | small (op : Opcode) (listed : (value.toInt, op) ∈ smallIntegers) : IntegerLoad value (.bare op)
  | byte (low : -128 ≤ value.toInt) (high : value.toInt ≤ 127) :
    IntegerLoad value (.byte .bipush value.toInt8)
  | short (low : -32768 ≤ value.toInt) (high : value.toInt ≤ 32767) :
    IntegerLoad value (.short .sipush value.toInt16)
  | constant (large : ¬ (-32768 ≤ value.toInt ∧ value.toInt ≤ 32767)) :
    IntegerLoad value (.constant .ldcW (some (.integer value)))

private theorem integerLoad (value : Int32) : IntegerLoad value (integerInstruction value) := by
  rw [integerInstruction]
  split
  · rename_i op found
    obtain ⟨before, after, split, -⟩ := List.lookup_eq_some_iff.mp found
    refine .small op ?_
    rw [split]
    exact List.mem_append_right before List.mem_cons_self
  · split_ifs with byte short
    · exact .byte byte.1 byte.2
    · exact .short short.1 short.2
    · exact .constant short

private theorem opcode_of_mem_smallIntegers : ∀ p ∈ smallIntegers, (-1 ≤ p.1 ∧ p.1 ≤ 5) ∧
    p.2.form? = some .bare ∧ ¬ (p.2 = .bipush ∨ p.2 = .sipush) ∧ ¬ (p.2 = .ldc ∨ p.2 = .ldcW) ∧
    (Opcode.iconstM1.byte ≤ p.2.byte ∧ p.2.byte ≤ Opcode.iconst5.byte) ∧
    (p.2.byte.toNat : Int) - Opcode.iconst0.byte.toNat = p.1 := by
  decide

section

variable {value : Int32} {i : Instruction}

private theorem IntegerLoad.formed (load : IntegerLoad value i) : i.Formed := by
  cases load with
  | small op listed => exact (opcode_of_mem_smallIntegers _ listed).2.1
  | byte => rfl
  | short => rfl
  | constant => rfl

/-- Each of the four rows says which number was asked for. Cutting a number down to the width of its
operand loses nothing, since the number is one that fits. -/
private theorem IntegerLoad.pushed? (load : IntegerLoad value i) {x : PoolIndex} {row : Row}
    (shown : i.ShownBy x row) : row.pushed? = some value.toInt := by
  cases load with
  | small op listed =>
    obtain ⟨opcode, -⟩ := shown
    obtain ⟨-, -, immediate, loaded, inside, number⟩ := opcode_of_mem_smallIntegers _ listed
    rw [Row.pushed?, opcode, if_neg immediate, if_neg loaded, if_pos inside, number]
  | byte low high =>
    obtain ⟨opcode, operands, -⟩ := shown
    have whole : value.toInt8.toInt = value.toInt := by
      rw [Int32.toInt_toInt8]
      apply Int.bmod_eq_of_le
      · omega
      · omega
    rw [Row.pushed?, opcode, if_pos (Or.inl rfl), operands, whole]
    rfl
  | short low high =>
    obtain ⟨opcode, operands, -⟩ := shown
    have whole : value.toInt16.toInt = value.toInt := by
      rw [Int32.toInt_toInt16]
      apply Int.bmod_eq_of_le
      · omega
      · omega
    rw [Row.pushed?, opcode, if_pos (Or.inr rfl), operands, whole]
    rfl
  | constant large =>
    obtain ⟨s, index, same, -, opcode, -, -, literal⟩ := shown
    cases same
    have immediate : ¬ (row.opcode = .bipush ∨ row.opcode = .sipush) := by
      rw [opcode, Opcode.encodedWith]
      split_ifs <;> decide
    have loaded : row.opcode = .ldc ∨ row.opcode = .ldcW := by
      rw [opcode, Opcode.encodedWith]
      split_ifs <;> decide
    rw [Row.pushed?, if_neg immediate, if_pos loaded, literal]
    rfl

end

end Code

private theorem Disassembly.exists_row_of_single {t : Table} {x : PoolIndex}
    (resolved : t.resolve = .ok x)
    {i : Instruction} (formed : i.Formed) (held : ∀ symbol ∈ i.symbols, t.Holds symbol) :
    ∃ code row, Code.encode x.lookup [i] = .ok code ∧
      Disassembly.rows x.entries code = .ok [row] ∧ i.ShownBy x row := by
  obtain ⟨row, here, sound, encoded, shown⟩ := exists_row_of_encode resolved formed held 0
  refine ⟨row.bytes ++ [], row, ?_, ?_, shown⟩
  · rw [Code.encode_cons, encoded, Code.encode_nil]
    rfl
  · apply rows_eq_ok_iff.mpr
    exact covers_cons.mpr ⟨here, sound, [], rfl, covers_nil.mpr rfl⟩

namespace Assembler

variable {a : Assembler} {m : MethodId} {b : MethodBuilder} {v : Int}

private theorem emit_loadInteger (found : a.methods[m]? = some b) (live : b.stage = .live)
    (fits : -2147483648 ≤ v ∧ v ≤ 2147483647) :
    a.emit m (.loadInteger v) =
      { a with
        methods := a.methods.modify m fun b =>
          { b with instructions := b.instructions.push (Code.integerInstruction (Int32.ofInt v)) }
        table := ((Code.integerInstruction (Int32.ofInt v)).symbols.head?.join).elim a.table
          a.table.refer } := by
  have inside : ¬ (v < -2147483648 ∨ 2147483647 < v) := by omega
  have emitted : b.emit (.loadInteger v) =
      { builder := { b with
          instructions := b.instructions.push (Code.integerInstruction (Int32.ofInt v)) }
        symbol := (Code.integerInstruction (Int32.ofInt v)).symbols.head?.join } := by
    rw [MethodBuilder.emit, if_neg inside]
    simp only [MethodBuilder.add, live]
  have added := modify_congr (f := fun b => (b.emit (.loadInteger v)).builder)
    (g := fun b => { b with
      instructions := b.instructions.push (Code.integerInstruction (Int32.ofInt v)) })
    found (congrArg MethodBuilder.Emitted.builder emitted)
  rw [emit_of_getElem?_eq_some found, added, emitted]
  rfl

private theorem emit_loadInteger_of_large (found : a.methods[m]? = some b)
    (large : v < -2147483648 ∨ 2147483647 < v) :
    a.emit m (.loadInteger v) =
      { a with methods := a.methods.modify m (·.fail (.integerTooLarge v)) } := by
  have emitted : b.emit (.loadInteger v) = { builder := b.fail (.integerTooLarge v) } := by
    rw [MethodBuilder.emit, if_pos large]
  have noted := modify_congr (f := fun b => (b.emit (.loadInteger v)).builder)
    (g := (·.fail (.integerTooLarge v))) found (congrArg MethodBuilder.Emitted.builder emitted)
  rw [emit_of_getElem?_eq_some found, noted, emitted]
  rfl

/-- Loading a number that fits in 32 bits adds one instruction to the method, counts the number once
in the pool if it is beyond 16 bits, and changes nothing else. In every pool that has its symbols
the instruction is encoded as code whose only row pushes the number. A number beyond 32 bits is
noted as a problem of the method, which cannot be ended any more, and changes nothing else. -/
theorem loadInteger_pushes_value (found : a.methods[m]? = some b) (live : b.stage = .live)
    (v : Int) :
    (-2147483648 ≤ v ∧ v ≤ 2147483647 →
      ∃ i, a.emit m (.loadInteger v) =
          { a with
            methods := a.methods.modify m fun b => { b with instructions := b.instructions.push i }
            table := if -32768 ≤ v ∧ v ≤ 32767 then a.table
              else a.table.intern (.integer (Int32.ofInt v)) } ∧
        (∀ symbol ∈ i.symbols, (a.emit m (.loadInteger v)).table.Holds symbol) ∧
        ∀ (t : Table) (x : PoolIndex), t.resolve = .ok x → (∀ symbol ∈ i.symbols, t.Holds symbol) →
          ∃ code row, Code.encode x.lookup [i] = .ok code ∧
            Disassembly.rows x.entries code = .ok [row] ∧ row.pushed? = some v) ∧
    (v < -2147483648 ∨ 2147483647 < v →
      a.emit m (.loadInteger v) =
          { a with methods := a.methods.modify m (·.fail (.integerTooLarge v)) } ∧
        ∀ later, ∃ f, (((a.emit m (.loadInteger v)).run later).endMethod m).1 = .error f ∧
          f.kind = .precondition) := by
  constructor
  · intro fits
    have number : (Int32.ofInt v).toInt = v := by
      apply Int32.toInt_ofInt_of_le
      · omega
      · omega
    have load := Code.integerLoad (Int32.ofInt v)
    have symbols := Code.symbols_integerInstruction (Int32.ofInt v)
    have emitted := emit_loadInteger found live fits
    generalize Code.integerInstruction (Int32.ofInt v) = i at load symbols emitted
    rw [number] at symbols
    refine ⟨i, ?_, ?_, ?_⟩
    · rw [emitted, symbols]
      split_ifs
      · rfl
      · rfl
    · intro symbol used
      rw [emitted, symbols]
      rw [symbols] at used
      split_ifs at used ⊢
      · cases used
      · cases List.mem_singleton.mp used
        exact ⟨_, rfl, a.table.contains_refer_self _⟩
    · intro t x resolved held
      obtain ⟨code, row, encoded, listed, shown⟩ :=
        Disassembly.exists_row_of_single resolved load.formed held
      exact ⟨code, row, encoded, listed, (load.pushed? shown).trans (congrArg some number)⟩
  · intro large
    have emitted := emit_loadInteger_of_large found large
    refine ⟨emitted, fun later => ?_⟩
    have flawed : (a.emit m (.loadInteger v)).Flawed m := by
      refine ⟨b.fail (.integerTooLarge v), ?_, b.problems_fail_ne_nil _⟩
      rw [emitted, Array.getElem?_modify, if_pos rfl, found]
      rfl
    exact (flawed.run later).endMethod

def openHistory : List Call :=
  [.beginClass "A" defaultClassAccess [], .beginMethod 0 defaultMethodAccess "f" "()I"]

/-- The least number that needs a pool entry, and the least one that is too large. -/
theorem loadInteger_pushes_values_at_limits :
    (∃ b, (run {} openHistory).methods[0]? = some b ∧ b.stage = .live) ∧
    (∃ i x code row, ((run {} openHistory).emit 0 (.loadInteger 32768)).table.resolve = .ok x ∧
      Code.encode x.lookup [i] = .ok code ∧ Disassembly.rows x.entries code = .ok [row] ∧
      row.pushed? = some 32768) ∧
    ∃ f, (((run {} openHistory).emit 0 (.loadInteger 2147483648)).endMethod 0).1 = .error f ∧
      f.kind = .precondition := by
  have begun : ∃ b, (run {} openHistory).methods[0]? = some b ∧ b.stage = .live := ⟨_, rfl, rfl⟩
  refine ⟨begun, ?_⟩
  obtain ⟨b, found, live⟩ := begun
  constructor
  · obtain ⟨i, state, held, pushes⟩ :=
      (loadInteger_pushes_value found live 32768).1 (by decide)
    have table : ((run {} openHistory).emit 0 (.loadInteger 32768)).table =
        Table.empty.refer (.integer 32768) := by
      rw [state]
      rfl
    have closed : (Table.empty.refer (.integer 32768)).Closed := by
      apply Table.Closed.refer
      intro s held
      simp at held
    have small := Table.empty.size_internAll_le [.integer 32768]
    have resolved := Table.resolve_eq_ok_iff.mpr ⟨Nat.le_trans small (by decide), closed, rfl⟩
    rw [table] at held ⊢
    obtain ⟨code, row, encoded, listed, pushed⟩ := pushes _ _ resolved held
    exact ⟨i, _, code, row, resolved, encoded, listed, pushed⟩
  · exact ((loadInteger_pushes_value found live 2147483648).2 (by decide)).2 []

end Assembler

end JvmAssembler
