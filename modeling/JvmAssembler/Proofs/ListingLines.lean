import JvmAssembler.Listing
import JvmAssembler.Proofs.ColumnLines
import JvmAssembler.Proofs.Utf8Runes

/-!
# The lines of a listing

A listing shows every instruction and every pool entry in order. Numbers, mnemonics and quoted texts
never break a line, but names and descriptors are shown as they are. So an entry is on one line
unless a name in it holds a line feed or a form feed, and then each of these adds a line.
-/

set_option autoImplicit false
set_option relaxedAutoImplicit false

namespace JvmAssembler

open Columns (isLineEnd isCellEnd IsFlat Spaced Shows tableLine)

namespace Columns

private theorem isFlat_nil : IsFlat [] := List.forall_mem_nil _

private theorem IsFlat.append {t u : Text} (first : IsFlat t) (second : IsFlat u) :
    IsFlat (t ++ u) := by
  intro b member
  rcases List.mem_append.mp member with inFirst | inSecond
  · exact first b inFirst
  · exact second b inSecond

private theorem isFlat_flatten {pieces : List Text} (flat : ∀ piece ∈ pieces, IsFlat piece) :
    IsFlat pieces.flatten := by
  intro b member
  obtain ⟨piece, inPieces, inPiece⟩ := List.mem_flatten.mp member
  exact flat piece inPieces b inPiece

private theorem isFlat_join {separator : Text} {pieces : List Text} (apart : IsFlat separator)
    (flat : ∀ piece ∈ pieces, IsFlat piece) : IsFlat (Text.join separator pieces) := by
  cases pieces with
  | nil => exact isFlat_nil
  | cons piece pieces =>
    obtain ⟨first, others⟩ := List.forall_mem_cons.mp flat
    refine first.append ?_
    intro b member
    obtain ⟨next, inPieces, inside⟩ := List.mem_flatMap.mp member
    exact apart.append (others next inPieces) b inside

private theorem isFlat_of_visible {t : Text} (visible : ∀ b ∈ t, 0x20 ≤ b.toNat) : IsFlat t := by
  intro b member
  have high := visible b member
  have ne_control : ∀ control : UInt8, control.toNat < 0x20 → b ≠ control := by
    rintro control low rfl
    omega
  simp [isLineEnd, isCellEnd, ne_control]

private theorem isFlat_decimal (n : Nat) : IsFlat (.decimal n) := by
  apply isFlat_of_visible
  intro b member
  obtain ⟨c, inDigits, rfl⟩ := List.mem_map.mp member
  have digit := Nat.isDigit_of_mem_toDigits (by decide) (by decide) inDigits
  have range : 48 ≤ c.toNat ∧ c.toNat ≤ 57 := by
    simpa [Char.isDigit, UInt32.le_iff_toNat_le] using digit
  rw [Utf8.toNat_toUInt8 _ (by omega)]
  omega

private theorem isFlat_signed (value : Int) : IsFlat (.signed value) := by
  cases value with
  | ofNat n => exact isFlat_decimal n
  | negSucc n => exact IsFlat.append (t := [0x2D]) (by decide) (isFlat_decimal (n + 1))

private theorem IsFlat.countP_lineEnd {t : Text} (flat : IsFlat t) : t.countP isLineEnd = 0 := by
  rw [List.countP_eq_zero]
  intro b member
  rw [(flat b member).1]
  exact Bool.false_ne_true

end Columns

namespace Quoted

private theorem isFlat_hexDigit (n : Nat) : IsFlat [Text.hexDigit (n % 16)] := by
  have all : ∀ d : Fin 16, IsFlat [Text.hexDigit d] := by decide
  exact all ⟨n % 16, Nat.mod_lt n (by decide)⟩

private theorem isFlat_hex (width n : Nat) : IsFlat (Text.hex width n) := by
  induction width generalizing n with
  | zero => exact Columns.isFlat_nil
  | succ width ih => exact (ih (n / 16)).append (isFlat_hexDigit n)

private theorem isFlat_encodeChar {c : Char} (visible : 0x20 ≤ c.toNat) :
    IsFlat (Utf8.encodeChar c) := by
  apply Columns.isFlat_of_visible
  have valid : c.toNat < 0x110000 := by
    rcases c.valid with low | high
    · exact low.trans (by decide)
    · exact high.2
  have byte : ∀ n, 0x20 ≤ n → n < 256 → 0x20 ≤ n.toUInt8.toNat := by
    intro n low high
    rwa [Utf8.toNat_toUInt8 n high]
  dsimp only [Utf8.encodeChar]
  split_ifs
  · exact List.forall_mem_singleton.mpr (byte _ (by omega) (by omega))
  · refine List.forall_mem_cons.mpr ⟨byte _ (by omega) (by omega), ?_⟩
    exact List.forall_mem_singleton.mpr (byte _ (by omega) (by omega))
  · refine List.forall_mem_cons.mpr ⟨byte _ (by omega) (by omega), ?_⟩
    refine List.forall_mem_cons.mpr ⟨byte _ (by omega) (by omega), ?_⟩
    exact List.forall_mem_singleton.mpr (byte _ (by omega) (by omega))
  · refine List.forall_mem_cons.mpr ⟨byte _ (by omega) (by omega), ?_⟩
    refine List.forall_mem_cons.mpr ⟨byte _ (by omega) (by omega), ?_⟩
    refine List.forall_mem_cons.mpr ⟨byte _ (by omega) (by omega), ?_⟩
    exact List.forall_mem_singleton.mpr (byte _ (by omega) (by omega))

private theorem visible_of_isPrintable {c : Char} (printable : Printable.isPrintable c = true) :
    0x20 ≤ c.toNat := by
  dsimp only [Printable.isPrintable] at printable
  split_ifs at printable with basic
  · exact of_decide_eq_true printable
  · omega

private theorem isFlat_escapeLetter {point : Nat} {letter : UInt8}
    (named : escapeLetter? point = some letter) : IsFlat [0x5C, letter] := by
  unfold escapeLetter? at named
  split at named
  all_goals cases named
  all_goals decide

private theorem isFlat_escapeRune (r : Utf8.Rune) : IsFlat (escapeRune r) := by
  have backslash : IsFlat [0x5C] := by decide
  have hexadecimal : ∀ (letter : UInt8) (width n : Nat), IsFlat [0x5C, letter] →
      IsFlat (0x5C :: letter :: Text.hex width n) := by
    intro letter width n flat
    exact Columns.IsFlat.append flat (isFlat_hex width n)
  cases r with
  | stray b => exact hexadecimal 0x78 2 b.toNat (by decide)
  | char c =>
    dsimp only [escapeRune, escapeChar]
    by_cases marked : c = '\x22' ∨ c = '\x5c'
    · rw [if_pos marked]
      refine Columns.IsFlat.append backslash (isFlat_encodeChar ?_)
      rcases marked with rfl | rfl
      · decide
      · decide
    · by_cases printable : Printable.isPrintable c = true
      · rw [if_neg marked, if_pos printable]
        exact isFlat_encodeChar (visible_of_isPrintable printable)
      · rw [if_neg marked, if_neg printable]
        cases named : escapeLetter? c.toNat with
        | some letter => exact isFlat_escapeLetter named
        | none =>
          dsimp only
          split_ifs
          · exact hexadecimal 0x78 2 c.toNat (by decide)
          · exact hexadecimal 0x75 4 c.toNat (by decide)
          · exact hexadecimal 0x55 8 c.toNat (by decide)

private theorem isFlat_quote (t : Text) : IsFlat (quote t) := by
  have mark : IsFlat [0x22] := by decide
  have body : IsFlat ((Utf8.runes t).flatMap escapeRune) := by
    intro b member
    obtain ⟨r, -, inside⟩ := List.mem_flatMap.mp member
    exact isFlat_escapeRune r b inside
  exact mark.append (body.append mark)

end Quoted

namespace Symbol

/-- The texts of an entry that are shown as they are. -/
def rawTexts : Symbol → List Text
  | .utf8 _ => []
  | .integer _ => []
  | .classRef name => [name]
  | .string _ => []
  | .nameAndType name descriptor => [name, descriptor]
  | .fieldRef owner name descriptor => [owner, name, descriptor]
  | .methodRef owner name descriptor => [owner, name, descriptor]

def lineEnds (s : Symbol) : Nat := s.rawTexts.flatten.countP isLineEnd

private theorem countP_text (s : Symbol) : s.text.countP isLineEnd = s.lineEnds := by
  have dot : (Text.ofString ".").countP isLineEnd = 0 := by decide
  have colon : (Text.ofString ":").countP isLineEnd = 0 := by decide
  cases s with
  | utf8 t => exact (Quoted.isFlat_quote t).countP_lineEnd
  | integer value => exact (Columns.isFlat_signed value.toInt).countP_lineEnd
  | classRef name => simp [text, lineEnds, rawTexts]
  | string t => exact (Quoted.isFlat_quote t).countP_lineEnd
  | nameAndType name descriptor =>
    simp [text, lineEnds, rawTexts, Text.concat, colon]
  | fieldRef owner name descriptor | methodRef owner name descriptor =>
    simp [text, lineEnds, rawTexts, Text.concat, dot, colon]

end Symbol

def Row.lineEnds (r : Row) : Nat :=
  match r.operand with
  | .constant _ s => s.lineEnds
  | .constantPair _ s₁ _ s₂ => s₁.lineEnds + s₂.lineEnds
  | _ => 0

namespace Listing

def rowCells (coloured : Bool) (r : Row) : Columns.Line :=
  [Text.ofString "  " ++ .decimal r.offset, paint coloured .bold r.name,
    .join ", " (r.operands.map .signed)]

def entryCells (entry : Symbol × Nat) : Columns.Line :=
  [Text.ofString "#" ++ .decimal entry.2, entry.1.tag.text]

private theorem ofString_tab : Text.ofString "\t" = [0x09] := by decide

private theorem ofString_feed : Text.ofString "\n" = [0x0A] := by decide

private theorem rowLine_eq (coloured : Bool) (r : Row) :
    rowLine coloured r = tableLine (rowCells coloured r) (information coloured r) := by
  simp [rowLine, tableLine, rowCells, Text.concat, ofString_tab, ofString_feed]

private theorem entryLine_eq (entry : Symbol × Nat) :
    entryLine entry = tableLine (entryCells entry) entry.1.text := by
  simp [entryLine, tableLine, entryCells, Text.concat, ofString_tab, ofString_feed]

private theorem exists_paint (coloured : Bool) (p : Paint) (t : Text) : ∃ before after : Text,
    IsFlat before ∧ IsFlat after ∧ paint coloured p t = before ++ (t ++ after) := by
  cases coloured with
  | false => exact ⟨[], [], Columns.isFlat_nil, Columns.isFlat_nil, (List.append_nil t).symm⟩
  | true =>
    have start : IsFlat (Text.ofString "\x1b[") := by decide
    have stop : IsFlat (Text.ofString "m") := by decide
    refine ⟨Text.ofString "\x1b[" ++ (.decimal p.number ++ Text.ofString "m"),
      Text.ofString "\x1b[0m", ?_, by decide, by simp [paint, Text.concat]⟩
    exact start.append ((Columns.isFlat_decimal p.number).append stop)

private theorem isFlat_paint (coloured : Bool) (p : Paint) {t : Text} (flat : IsFlat t) :
    IsFlat (paint coloured p t) := by
  obtain ⟨before, after, front, back, whole⟩ := exists_paint coloured p t
  rw [whole]
  exact front.append (flat.append back)

private theorem countP_paint (coloured : Bool) (p : Paint) (t : Text) :
    (paint coloured p t).countP isLineEnd = t.countP isLineEnd := by
  obtain ⟨before, after, front, back, whole⟩ := exists_paint coloured p t
  rw [whole, List.countP_append, List.countP_append, front.countP_lineEnd, back.countP_lineEnd,
    Nat.zero_add, Nat.add_zero]

private theorem isFlat_name (op : Opcode) : IsFlat op.name := by
  have known : ∀ info ∈ Opcode.table, IsFlat info.name := by decide
  unfold Opcode.name
  cases found : op.info? with
  | none => decide
  | some info => exact known info (List.mem_of_find?_eq_some found)

private theorem isFlat_rowCells (coloured : Bool) (r : Row) :
    ∀ cell ∈ rowCells coloured r, IsFlat cell := by
  have indent : IsFlat (Text.ofString "  ") := by decide
  have comma : IsFlat (Text.ofString ", ") := by decide
  have operands : ∀ piece ∈ r.operands.map Text.signed, IsFlat piece := by
    intro piece member
    obtain ⟨value, -, rfl⟩ := List.mem_map.mp member
    exact Columns.isFlat_signed value
  refine List.forall_mem_cons.mpr ⟨indent.append (Columns.isFlat_decimal r.offset), ?_⟩
  refine List.forall_mem_cons.mpr ⟨isFlat_paint coloured .bold (isFlat_name r.opcode), ?_⟩
  exact List.forall_mem_singleton.mpr (Columns.isFlat_join comma operands)

private theorem isFlat_tagText (t : Tag) : IsFlat t.text := by
  have known : ∀ entry ∈ Tag.named, IsFlat entry.2 := by decide
  unfold Tag.text
  cases found : Tag.named.lookup t with
  | some name =>
    obtain ⟨front, back, parts, -⟩ := List.lookup_eq_some_iff.mp found
    exact known (t, name) (by simp [parts])
  | none =>
    have front : IsFlat (Text.ofString "Tag(") := by decide
    have back : IsFlat (Text.ofString ")") := by decide
    apply Columns.isFlat_flatten
    refine List.forall_mem_cons.mpr ⟨front, List.forall_mem_cons.mpr ⟨?_, ?_⟩⟩
    · exact Columns.isFlat_decimal t.byte.toNat
    · exact List.forall_mem_singleton.mpr back

private theorem isFlat_entryCells (entry : Symbol × Nat) :
    ∀ cell ∈ entryCells entry, IsFlat cell := by
  have number : IsFlat (Text.ofString "#") := by decide
  refine List.forall_mem_cons.mpr ⟨number.append (Columns.isFlat_decimal entry.2), ?_⟩
  exact List.forall_mem_singleton.mpr (isFlat_tagText entry.1.tag)

private theorem countP_information_of_plain (coloured : Bool) {r : Row}
    (plain : r.literal? = none) :
    (information coloured r).countP isLineEnd = r.remark.countP isLineEnd := by
  rw [information, plain]
  dsimp only
  split_ifs with empty
  · rw [empty]
  · exact countP_paint coloured .brightCyan r.remark

private theorem countP_information (coloured : Bool) (r : Row) :
    (information coloured r).countP isLineEnd = r.lineEnds := by
  obtain ⟨offset, op, operand⟩ := r
  cases operand with
  | bare => rfl
  | immediate value => rfl
  | slot index =>
    have label : IsFlat (Text.ofString "local_") := by decide
    rw [countP_information_of_plain coloured rfl]
    simp [Row.remark, Row.lineEnds, Text.concat, label.countP_lineEnd,
      (Columns.isFlat_decimal index.toNat).countP_lineEnd]
  | constantPair index₁ s₁ index₂ s₂ =>
    have comma : IsFlat (Text.ofString ", ") := by decide
    rw [countP_information_of_plain coloured rfl]
    simp [Row.remark, Row.lineEnds, Text.concat, Symbol.countP_text, comma.countP_lineEnd]
  | constant index s =>
    by_cases literal : s.isLiteral = true
    · cases s with
      | string t =>
        refine (countP_paint coloured .green _).trans ?_
        exact (Quoted.isFlat_quote (shortened t)).countP_lineEnd
      | integer value =>
        refine (countP_paint coloured .yellow _).trans ?_
        exact (Columns.isFlat_signed value.toInt).countP_lineEnd
      | _ => cases literal
    · have plain : Row.literal? ⟨offset, op, .constant index s⟩ = none := if_neg literal
      rw [countP_information_of_plain coloured plain]
      exact s.countP_text

private theorem codeTable_eq (coloured : Bool) (rows : List Row) :
    codeTable coloured rows = tableLine ["  OFFSET", "OPCODE", "OPERANDS"] "INFO" ++
      rows.flatMap fun r => tableLine (rowCells coloured r) (information coloured r) := by
  have first : Text.ofString "  OFFSET\tOPCODE\tOPERANDS\tINFO\n" =
      tableLine ["  OFFSET", "OPCODE", "OPERANDS"] "INFO" := by decide
  have others : rowLine coloured =
      fun r => tableLine (rowCells coloured r) (information coloured r) :=
    funext (rowLine_eq coloured)
  rw [codeTable, first, others]

private theorem poolTable_eq (pool : Array Symbol) :
    poolTable pool = tableLine ["INDEX", "TAG"] "VALUE" ++
      (pool.toList.zipIdx 1).flatMap fun entry => tableLine (entryCells entry) entry.1.text := by
  have first : Text.ofString "INDEX\tTAG\tVALUE\n" = tableLine ["INDEX", "TAG"] "VALUE" := by
    decide
  rw [poolTable, first, funext entryLine_eq]

private theorem render_eq_ok {coloured : Bool} {f : ClassFile} {text : Text}
    (rendered : render coloured f = .ok text) :
    ∃ rest, text = heading coloured f ++ (Columns.align (poolTable f.pool) ++ rest) := by
  unfold render parts at rendered
  cases found : f.disassemble with
  | error e =>
    rw [found] at rendered
    cases rendered
  | ok methods =>
    rw [found] at rendered
    cases rendered
    exact ⟨_, rfl⟩

/-- Every instruction is shown in order by one line and one more for each line end in the names it
shows, and so is every pool entry. There is one line for each, behind the line of the heading,
exactly when these names hold no line ends. -/
theorem lines_of_entries (coloured : Bool) (f : ClassFile) :
    (∀ rows : List Row, ∃ (head : Text) (groups : List (List Text)),
      (instructions coloured rows).HasLines (head :: groups.flatten) ∧
      Spaced ["  OFFSET", "OPCODE", "OPERANDS", "INFO"] head ∧
      List.Forall₂ (fun r group => Shows (rowCells coloured r) (information coloured r) group ∧
        group.length = r.lineEnds + 1) rows groups ∧
      ((head :: groups.flatten).length = rows.length + 1 ↔ ∀ r ∈ rows, r.lineEnds = 0)) ∧
    ∀ text, render coloured f = .ok text →
      ∃ (table rest head : Text) (groups : List (List Text)),
        text = heading coloured f ++ (table ++ rest) ∧
        table.HasLines (head :: groups.flatten) ∧
        Spaced ["INDEX", "TAG", "VALUE"] head ∧
        List.Forall₂ (fun entry group => Shows (entryCells entry) entry.1.text group ∧
          group.length = entry.1.lineEnds + 1) (f.pool.toList.zipIdx 1) groups ∧
        ((head :: groups.flatten).length = f.pool.size + 1 ↔ ∀ s ∈ f.pool, s.lineEnds = 0) := by
  constructor
  · intro rows
    have flatHeading : ∀ cell ∈ [Text.ofString "  OFFSET", Text.ofString "OPCODE",
        Text.ofString "OPERANDS"], IsFlat cell := by decide
    have flatTitle : IsFlat (Text.ofString "INFO") := by decide
    have table := Columns.align_table flatHeading flatTitle (isFlat_rowCells coloured)
      (information coloured) rows
    rw [← codeTable_eq] at table
    simp only [countP_information] at table
    exact table
  · intro text rendered
    obtain ⟨rest, whole⟩ := render_eq_ok rendered
    have flatHeading : ∀ cell ∈ [Text.ofString "INDEX", Text.ofString "TAG"], IsFlat cell := by
      decide
    have flatTitle : IsFlat (Text.ofString "VALUE") := by decide
    have table := Columns.align_table flatHeading flatTitle isFlat_entryCells
      (fun entry => entry.1.text) (f.pool.toList.zipIdx 1)
    rw [← poolTable_eq] at table
    simp only [Symbol.countP_text, List.length_zipIdx, Array.length_toList] at table
    obtain ⟨head, groups, has, spaced, each, exact_iff⟩ := table
    refine ⟨_, rest, head, groups, whole, has, spaced, each, exact_iff.trans ?_⟩
    have symbols : (∀ entry ∈ f.pool.toList.zipIdx 1, entry.1.lineEnds = 0) ↔
        ∀ s ∈ (f.pool.toList.zipIdx 1).map Prod.fst, s.lineEnds = 0 := by
      rw [List.forall_mem_map]
    rw [symbols, List.zipIdx_map_fst]
    simp only [Array.mem_toList_iff]

def plainClass : ClassFile where
  version := ⟨0x34, 0⟩
  access := ⟨0x21⟩
  thisIndex := 2
  superIndex := 2
  thisName := "A"
  superName := "A"
  pool := #[.utf8 "A", .classRef "A"]
  methods := []

theorem lines_of_plainClass :
    (∃ lines,
      (instructions true
        [⟨0, .ldc, .constant 2 (.classRef "A")⟩, ⟨2, .vreturn, .bare⟩]).HasLines lines ∧
      lines.length = 3) ∧
    ∃ table rest lines, render true plainClass = .ok (heading true plainClass ++ (table ++ rest)) ∧
      table.HasLines lines ∧ lines.length = 3 := by
  obtain ⟨code, pool⟩ := lines_of_entries true plainClass
  obtain ⟨head, groups, has, -, -, exact_iff⟩ :=
    code [⟨0, .ldc, .constant 2 (.classRef "A")⟩, ⟨2, .vreturn, .bare⟩]
  refine ⟨⟨_, has, exact_iff.mpr (by decide)⟩, ?_⟩
  have rendered : render true plainClass =
      .ok (heading true plainClass ++ (Columns.align (poolTable plainClass.pool) ++ [])) := rfl
  obtain ⟨table, rest, head, groups, whole, has, -, -, exact_iff⟩ := pool _ rendered
  refine ⟨table, rest, _, ?_, has, exact_iff.mpr (by decide)⟩
  rw [rendered, whole]

/-- A class file whose class, the second of two pool entries, has a name of two letters with a line
feed between them. -/
def feedNameFile : Bytes :=
  [0xCA, 0xFE, 0xBA, 0xBE, 0, 0, 0, 0x34, 0, 3, 1, 0, 3, 0x41, 0x0A, 0x42, 7, 0, 1, 0, 0x21, 0, 2,
    0, 2, 0, 0, 0, 0, 0, 0, 0, 0]

/-- The name of that class stands on two lines, in the listing of an instruction that loads the
class and in the table of the pool. -/
theorem name_with_feed_takes_two_lines :
    ∃ (f : ClassFile) (rows : List Row) (table rest : Text) (code entries : List Text),
      ClassFile.parse feedNameFile = .ok f ∧
      Disassembly.rows f.pool [0x12, 2] = .ok rows ∧
      (instructions false rows).HasLines code ∧ rows.length = 1 ∧ code.length = 3 ∧
      render false f = .ok (heading false f ++ (table ++ rest)) ∧
      table.HasLines entries ∧ f.pool.size = 2 ∧ entries.length = 4 := by
  -- Reading the file is left to the kernel, as a test of the pool and the methods that come out.
  have named : (ClassFile.parse feedNameFile).toOption.any (fun f =>
      decide (f.pool.toList = [.utf8 [0x41, 0x0A, 0x42], .classRef [0x41, 0x0A, 0x42]] ∧
        f.methods = [])) = true := by decide +kernel
  cases parsed : ClassFile.parse feedNameFile with
  | error e =>
    rw [parsed] at named
    cases named
  | ok f =>
    rw [parsed] at named
    obtain ⟨pool, methods⟩ := of_decide_eq_true named
    have pool_eq : f.pool = #[.utf8 [0x41, 0x0A, 0x42], .classRef [0x41, 0x0A, 0x42]] :=
      Array.toList_inj.mp pool
    have disassembled : f.disassemble = .ok [] := by
      rw [ClassFile.disassemble, methods]
      rfl
    refine ⟨f, [⟨0, .ldc, .constant 2 (.classRef [0x41, 0x0A, 0x42])⟩],
      Columns.align (poolTable f.pool), [],
      ["  OFFSET  OPCODE  OPERANDS  INFO", "  0       ldc     2         A", "B"],
      ["INDEX  TAG    VALUE", "#1     Utf8   \x22A\\nB\x22", "#2     Class  A", "B"],
      rfl, ?_, ⟨?_, ?_⟩, rfl, rfl, ?_, ⟨?_, ?_⟩, ?_, rfl⟩
    · rw [pool_eq]
      rfl
    · decide +kernel
    · decide
    · rw [render, parts, disassembled]
      rfl
    · rw [pool_eq]
      decide +kernel
    · decide
    · rw [pool_eq]
      rfl

end Listing

end JvmAssembler
