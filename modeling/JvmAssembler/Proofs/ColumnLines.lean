import Mathlib.Data.List.Forall2
import Mathlib.Data.List.Induction
import Mathlib.Data.List.SplitBy
import Mathlib.Tactic.SplitIfs
import JvmAssembler.Text.Columns

/-!
# Columns keep lines

Putting text in columns moves cells apart and does nothing else. Every line that ends in the text
comes out as one line, in order, with its cells in order and at least two spaces between them.
-/

set_option autoImplicit false
set_option relaxedAutoImplicit false

namespace JvmAssembler

structure Text.HasLines (t : Text) (lines : List Text) : Prop where
  whole : t = lines.flatMap (· ++ [0x0A])
  unbroken : ∀ line ∈ lines, 0x0A ∉ line

namespace Columns

def isLineEnd (b : UInt8) : Bool := b == 0x0A || b == 0x0C

def isCellEnd (b : UInt8) : Bool := b == 0x09 || b == 0x0B

def cellsOf (line : Text) : Line := line.splitOnP isCellEnd

def linesOf (t : Text) : List Line := (t.splitOnP isLineEnd).dropLast.map cellsOf

inductive Spaced : Line → Text → Prop where
  | last (cell : Text) : Spaced [cell] cell
  | next (cell : Text) {spaces : Nat} (wide : gap ≤ spaces) {cells : Line} {rest : Text}
      (behind : Spaced cells rest) :
    Spaced (cell :: cells) (cell ++ (List.replicate spaces 0x20 ++ rest))

section Layout

private theorem le_foldl_max {α : Type} {f : α → Nat} {items : List α} {a : α} (member : a ∈ items)
    (start : Nat) : f a ≤ items.foldl (fun n b => max n (f b)) start := by
  have grows : ∀ (items : List α) (start : Nat),
      start ≤ items.foldl (fun n b => max n (f b)) start := by
    intro items
    induction items with
    | nil => exact fun start => le_rfl
    | cons b items ih => exact fun start => (Nat.le_max_left start (f b)).trans (ih _)
  induction items generalizing start with
  | nil => cases member
  | cons b items ih =>
    rcases List.mem_cons.mp member with rfl | later
    · exact (Nat.le_max_right start (f a)).trans (grows items _)
    · exact ih later _

private theorem spaced_pad {cell : Text} {width : Nat} (wide : Utf8.count cell + gap ≤ width)
    {cells : Line} {rest : Text} (behind : Spaced cells rest) :
    Spaced (cell :: cells) (pad width cell ++ rest) := by
  have spaces : gap ≤ width - Utf8.count cell := by omega
  rw [pad, List.append_assoc]
  exact .next cell spaces behind

private theorem spaced_flatten {line : Line} (nonempty : line ≠ [])
    (only : hasColumn line = false) : Spaced line line.flatten := by
  have short : line.length < 2 := by simpa [hasColumn] using only
  obtain ⟨cell, rfl⟩ : ∃ cell, line = [cell] := by
    apply List.length_eq_one_iff.mp
    have positive := List.length_pos_iff.mpr nonempty
    omega
  rw [List.flatten_singleton]
  exact .last cell

private theorem hasColumn_eq_of_mem_runs {lines run : List Line}
    (member : run ∈ runs hasColumn lines)
    {line line' : Line} (first : line ∈ run) (second : line' ∈ run) :
    hasColumn line = hasColumn line' := by
  have chain : run.IsChain fun a b => (hasColumn a == hasColumn b) = true :=
    List.isChain_of_mem_splitBy member
  have alike : run.IsChain fun a b => hasColumn a = hasColumn b :=
    chain.imp fun _ _ same => beq_iff_eq.mp same
  have transitive : IsTrans Line fun a b => hasColumn a = hasColumn b := ⟨fun _ _ _ => Eq.trans⟩
  have symmetric : Std.Symm fun a b : Line => hasColumn a = hasColumn b := ⟨fun _ _ => Eq.symm⟩
  have pairs : run.Pairwise fun a b => hasColumn a = hasColumn b :=
    List.isChain_iff_pairwise.mp alike
  exact List.Pairwise.forall_of_forall (R := fun a b => hasColumn a = hasColumn b)
    (fun _ _ => rfl) pairs first second

private theorem spaced_zipWith {run : List Line} {rests : List Text} {width : Nat}
    (cells : ∀ line ∈ run, line ≠ [] ∧ Utf8.count (line.headD []) + gap ≤ width)
    (behind : List.Forall₂ Spaced (run.map List.tail) rests) :
    List.Forall₂ Spaced run
      (List.zipWith (fun line rest => pad width (line.headD []) ++ rest) run rests) := by
  induction run generalizing rests with
  | nil =>
    cases behind
    exact .nil
  | cons line run ih =>
    cases behind with
    | @cons _ rest _ rests first others =>
      obtain ⟨⟨nonempty, wide⟩, later⟩ := List.forall_mem_cons.mp cells
      obtain ⟨cell, cells, rfl⟩ := List.exists_cons_of_ne_nil nonempty
      exact .cons (spaced_pad wide first) (ih later others)

/-- Lines come out of the layout one by one. Every position deals with the first cells of the lines
that have another cell behind them. -/
private theorem spaced_layout {positions : Nat} {lines : List Line}
    (cells : ∀ line ∈ lines, line ≠ [] ∧ line.length ≤ positions + 1) :
    List.Forall₂ Spaced lines (layout positions lines) := by
  induction positions generalizing lines with
  | zero =>
    rw [layout, List.forall₂_map_right_iff, List.forall₂_same]
    intro line member
    obtain ⟨nonempty, short⟩ := cells line member
    exact spaced_flatten nonempty (by simp [hasColumn]; omega)
  | succ positions ih =>
    have whole : (runs hasColumn lines).flatten = lines := List.flatten_splitBy _ lines
    have inLines : ∀ run ∈ runs hasColumn lines, ∀ line ∈ run, line ∈ lines := by
      intro run member line inRun
      rw [← whole]
      exact List.mem_flatten_of_mem member inRun
    -- Runs are laid out one by one: in each, all lines have a cell to pad or none has.
    suffices byRun : List.Forall₂ (List.Forall₂ Spaced) (runs hasColumn lines)
        ((runs hasColumn lines).map fun run =>
          if run.any hasColumn then
            List.zipWith (fun line rest => pad (columnWidth run) (line.headD []) ++ rest) run
              (layout positions (run.map List.tail))
          else run.map List.flatten) by
      have flat := List.rel_flatten byRun
      rw [whole] at flat
      rw [layout, List.flatMap_def]
      exact flat
    rw [List.forall₂_map_right_iff, List.forall₂_same]
    intro run member
    split_ifs with columned
    · obtain ⟨other, inRun, column⟩ := List.any_eq_true.mp columned
      have columns : ∀ line ∈ run, 2 ≤ line.length := by
        intro line inRun'
        have same := hasColumn_eq_of_mem_runs member inRun' inRun
        rw [column] at same
        exact of_decide_eq_true same
      apply spaced_zipWith
      · intro line inRun'
        refine ⟨(cells line (inLines run member line inRun')).1, ?_⟩
        exact le_foldl_max (f := fun line => Utf8.count (line.headD []) + gap) inRun' 0
      · apply ih
        intro line inTails
        obtain ⟨line, inRun', rfl⟩ := List.mem_map.mp inTails
        have long := columns line inRun'
        have short := (cells line (inLines run member line inRun')).2
        rw [← List.length_pos_iff, List.length_tail]
        omega
    · rw [List.forall₂_map_right_iff, List.forall₂_same]
      intro line inRun
      have only : hasColumn line = false := by
        rw [Bool.eq_false_iff]
        intro column
        exact columned (List.any_eq_true.mpr ⟨line, inRun, column⟩)
      exact spaced_flatten (cells line (inLines run member line inRun)).1 only

end Layout

section Pieces

variable {p : UInt8 → Bool} {t : Text} {b : UInt8}

private theorem splitOnP_append_end (isEnd : p b = true) :
    (t ++ [b]).splitOnP p = t.splitOnP p ++ [[]] := by
  rw [List.splitOnP_append_cons t [] isEnd, List.splitOnP_nil]

private theorem splitOnP_append_other (other : p b = false) :
    ∃ (front : List Text) (last : Text), t.splitOnP p = front ++ [last] ∧
      (t ++ [b]).splitOnP p = front ++ [last ++ [b]] := by
  induction t with
  | nil => exact ⟨[], [], List.splitOnP_nil, by simp [List.splitOnP_cons_eq_if_modifyHead, other]⟩
  | cons c t ih =>
    obtain ⟨front, last, parts, longer⟩ := ih
    rw [List.cons_append, List.splitOnP_cons_eq_if_modifyHead, List.splitOnP_cons_eq_if_modifyHead,
      parts, longer]
    split_ifs with isEnd
    · exact ⟨[] :: front, last, rfl, rfl⟩
    · cases front with
      | nil => exact ⟨[], c :: last, rfl, rfl⟩
      | cons piece front => exact ⟨(c :: piece) :: front, last, rfl, rfl⟩

private theorem of_mem_splitOnP {piece : Text} (member : piece ∈ t.splitOnP p) :
    ∀ b ∈ piece, b ∈ t ∧ p b = false := by
  induction t generalizing piece with
  | nil =>
    rw [List.splitOnP_nil, List.mem_singleton] at member
    rw [member]
    exact List.forall_mem_nil _
  | cons c t ih =>
    have later : ∀ piece ∈ t.splitOnP p, ∀ b ∈ piece, b ∈ c :: t ∧ p b = false := by
      intro piece inRest b inPiece
      obtain ⟨inText, other⟩ := ih inRest b inPiece
      exact ⟨List.mem_cons_of_mem c inText, other⟩
    rw [List.splitOnP_cons_eq_if_modifyHead] at member
    obtain ⟨first, others, parts⟩ := List.exists_cons_of_ne_nil (List.splitOnP_ne_nil p t)
    rw [parts] at member later
    obtain ⟨ofFirst, ofOthers⟩ := List.forall_mem_cons.mp later
    split_ifs at member with isEnd
    · rcases List.mem_cons.mp member with rfl | inRest
      · exact List.forall_mem_nil _
      · exact later piece inRest
    · rcases List.mem_cons.mp member with rfl | inOthers
      · exact List.forall_mem_cons.mpr ⟨⟨List.mem_cons_self, Bool.eq_false_iff.mpr isEnd⟩, ofFirst⟩
      · exact ofOthers piece inOthers

private theorem length_splitOnP (t : Text) : (t.splitOnP p).length = t.countP p + 1 := by
  induction t with
  | nil => rfl
  | cons c t ih =>
    rw [List.splitOnP_cons_eq_if_modifyHead, List.countP_cons]
    split_ifs with isEnd
    · rw [List.length_cons, ih]
    · rw [List.length_modifyHead, ih]

private theorem splitOnP_append_front {front : Text} (free : ∀ b ∈ front, p b = false) (t : Text) :
    (front ++ t).splitOnP p = (t.splitOnP p).modifyHead (front ++ ·) := by
  induction front with
  | nil => exact (congrFun List.modifyHead_id _).symm
  | cons c front ih =>
    obtain ⟨other, later⟩ := List.forall_mem_cons.mp free
    rw [List.cons_append, List.splitOnP_cons_eq_if_modifyHead, other, if_neg Bool.false_ne_true,
      ih later, List.modifyHead_modifyHead]
    rfl

end Pieces

section Scanning

namespace Scan

/-- What was read so far: the lines that ended are in the output or wait for it, and the cells of
the line that has not ended are known. -/
structure Holds (s : Scan) (complete : List Text) (current : Text) : Prop where
  cells : (s.cell.reverse :: s.cells).reverse = cellsOf current
  lines : ∃ (shown : List Line) (out : List Text),
    complete.map cellsOf = shown ++ s.lines.reverse ∧ List.Forall₂ Spaced shown out ∧
      s.done.reverse.flatten = out.flatMap (· ++ [0x0A])

variable {s : Scan} {complete : List Text} {current : Text} {b : UInt8}

private theorem Holds.endLine (holds : s.Holds complete current) :
    s.endLine.Holds (complete ++ [current]) [] := by
  obtain ⟨shown, out, lines, spaced, done⟩ := holds.lines
  refine ⟨List.splitOnP_nil.symm, shown, out, ?_, spaced, done⟩
  change _ = shown ++ ((s.cell.reverse :: s.cells).reverse :: s.lines).reverse
  rw [holds.cells, List.map_append, lines, List.reverse_cons, List.append_assoc]
  rfl

private theorem Holds.endBlock (holds : s.Holds complete current) :
    s.endBlock.Holds complete current := by
  obtain ⟨shown, out, lines, spaced, done⟩ := holds.lines
  have cells : ∀ line ∈ s.lines.reverse, line ≠ [] ∧ line.length ≤ depth s.lines.reverse + 1 := by
    intro line member
    refine ⟨?_, (le_foldl_max (f := List.length) member 0).trans (Nat.le_succ _)⟩
    have inComplete : line ∈ complete.map cellsOf := by
      rw [lines]
      exact List.mem_append_right shown member
    obtain ⟨text, -, rfl⟩ := List.mem_map.mp inComplete
    exact List.splitOnP_ne_nil _ text
  refine ⟨holds.cells, shown ++ s.lines.reverse, out ++ layout _ s.lines.reverse, ?_,
    List.rel_append spaced (spaced_layout cells), ?_⟩
  · rw [lines]
    exact (List.append_nil _).symm
  · change (renderBlock s.lines.reverse :: s.done).reverse.flatten = _
    rw [List.reverse_cons, List.flatten_append, done, List.flatten_singleton, List.flatMap_append]
    rfl

private theorem Holds.endCell (holds : s.Holds complete current) (isEnd : isCellEnd b = true) :
    Holds { s with cells := s.cell.reverse :: s.cells, cell := [] } complete (current ++ [b]) := by
  refine ⟨?_, holds.lines⟩
  rw [cellsOf, splitOnP_append_end isEnd, ← cellsOf, ← holds.cells]
  exact List.reverse_cons

private theorem Holds.readByte (holds : s.Holds complete current) (other : isCellEnd b = false) :
    Holds { s with cell := b :: s.cell } complete (current ++ [b]) := by
  refine ⟨?_, holds.lines⟩
  obtain ⟨front, last, parts, longer⟩ := splitOnP_append_other (t := current) other
  have cells := holds.cells
  rw [cellsOf, parts, List.reverse_cons] at cells
  obtain ⟨cells_eq, cell_eq⟩ := List.append_inj' cells rfl
  change ((b :: s.cell).reverse :: s.cells).reverse = _
  rw [cellsOf, longer, List.reverse_cons, List.reverse_cons, cells_eq,
    (List.cons_eq_cons.mp cell_eq).1]

private theorem Holds.step_of_lineEnd (holds : s.Holds complete current)
    (isEnd : isLineEnd b = true) : (s.step b).Holds (complete ++ [current]) [] := by
  have whole := holds.endLine.endBlock
  rcases Bool.or_eq_true_iff.mp isEnd with feed | feed
  · cases beq_iff_eq.mp feed
    unfold step
    rw [if_neg (by decide), if_pos rfl]
    split_ifs
    · exact whole
    · exact holds.endLine
  · cases beq_iff_eq.mp feed
    unfold step
    rw [if_neg (by decide), if_neg (by decide), if_pos rfl]
    exact whole

private theorem Holds.step_of_other (holds : s.Holds complete current)
    (other : isLineEnd b = false) : (s.step b).Holds complete (current ++ [b]) := by
  obtain ⟨notFeed, notForm⟩ := Bool.or_eq_false_iff.mp other
  unfold step
  split_ifs with tab feed empty form
  · exact holds.endCell (by simpa [isCellEnd] using tab)
  · exact absurd feed (beq_eq_false_iff_ne.mp notFeed)
  · exact absurd feed (beq_eq_false_iff_ne.mp notFeed)
  · exact absurd form (beq_eq_false_iff_ne.mp notForm)
  · exact holds.readByte (by simpa [isCellEnd] using tab)

private theorem holds_foldl (t : Text) : ∃ (complete : List Text) (current : Text),
    t.splitOnP isLineEnd = complete ++ [current] ∧
      (t.foldl step {}).Holds complete current := by
  -- From the end: the scan takes the last byte in the state that everything before it leads to.
  induction t using List.reverseRecOn with
  | nil => exact ⟨[], [], List.splitOnP_nil, rfl, [], [], rfl, .nil, rfl⟩
  | append_singleton t b ih =>
    obtain ⟨complete, current, parts, holds⟩ := ih
    rw [List.foldl_append]
    by_cases isEnd : isLineEnd b = true
    · refine ⟨complete ++ [current], [], ?_, holds.step_of_lineEnd isEnd⟩
      rw [splitOnP_append_end isEnd, parts]
    · have other := Bool.eq_false_iff.mpr isEnd
      refine ⟨complete, current ++ [b], ?_, holds.step_of_other other⟩
      obtain ⟨front, last, parts', longer⟩ := splitOnP_append_other (t := t) other
      obtain ⟨rfl, same⟩ := List.append_inj' (parts'.symm.trans parts) rfl
      rw [longer, (List.cons_eq_cons.mp same).1]

end Scan

private theorem Spaced.notMem {cells : Line} {line : Text} (spaced : Spaced cells line) {b : UInt8}
    (visible : b ≠ 0x20) (free : ∀ cell ∈ cells, b ∉ cell) : b ∉ line := by
  induction spaced with
  | last cell => exact free cell List.mem_cons_self
  | next cell wide behind ih =>
    obtain ⟨first, others⟩ := List.forall_mem_cons.mp free
    intro member
    rcases List.mem_append.mp member with inCell | later
    · exact first inCell
    · rcases List.mem_append.mp later with inGap | inRest
      · exact visible (List.eq_of_mem_replicate inGap)
      · exact ih others inRest

private theorem notMem_of_mem_linesOf {t : Text} {line : Line} (member : line ∈ linesOf t) :
    ∀ cell ∈ line, 0x0A ∉ cell := by
  obtain ⟨text, inText, rfl⟩ := List.mem_map.mp member
  intro cell inLine feed
  have inside := (of_mem_splitOnP inLine _ feed).1
  have other := (of_mem_splitOnP (List.dropLast_subset _ inText) _ inside).2
  cases other

private theorem notMem_of_forall₂ {cells : List Line} {lines : List Text}
    (spaced : List.Forall₂ Spaced cells lines)
    (free : ∀ line ∈ cells, ∀ cell ∈ line, 0x0A ∉ cell) : ∀ line ∈ lines, 0x0A ∉ line := by
  induction spaced with
  | nil => exact List.forall_mem_nil _
  | cons first others ih =>
    obtain ⟨inFirst, inOthers⟩ := List.forall_mem_cons.mp free
    exact List.forall_mem_cons.mpr ⟨first.notMem (by decide) inFirst, ih inOthers⟩

private theorem align_lines (t : Text) :
    ∃ lines, (align t).HasLines lines ∧ List.Forall₂ Spaced (linesOf t) lines := by
  obtain ⟨complete, current, parts, holds⟩ := Scan.holds_foldl t
  obtain ⟨shown, out, lines, spaced, done⟩ := holds.endBlock.lines
  have shown_eq : linesOf t = shown := by
    rw [linesOf, parts, List.dropLast_concat, lines]
    exact List.append_nil shown
  rw [← shown_eq] at spaced
  exact ⟨out, ⟨done, notMem_of_forall₂ spaced fun _ => notMem_of_mem_linesOf⟩, spaced⟩

end Scanning

section Tables

def IsFlat (t : Text) : Prop := ∀ b ∈ t, isLineEnd b = false ∧ isCellEnd b = false

instance (t : Text) : Decidable (IsFlat t) := List.decidableBAll _ t

def tableLine (front : Line) (last : Text) : Text :=
  front.flatMap (· ++ [0x09]) ++ (last ++ [0x0A])

/-- The lines show the cells in front and, behind them, the last text. If that text has line ends,
what follows the first of them is on lines of its own. -/
def Shows (front : Line) (last : Text) (group : List Text) : Prop :=
  ∃ (first : Line) (later : List Line), linesOf (last ++ [0x0A]) = first :: later ∧
    List.Forall₂ Spaced ((front ++ first) :: later) group

private theorem linesOf_append_feed (front back : Text) :
    linesOf (front ++ 0x0A :: back) = (front.splitOnP isLineEnd).map cellsOf ++ linesOf back := by
  have feed : isLineEnd 0x0A = true := rfl
  rw [linesOf, List.splitOnP_append_cons front back feed,
    List.dropLast_append_of_ne_nil (List.splitOnP_ne_nil _ back), List.map_append]
  rfl

private theorem linesOf_feed (t : Text) :
    linesOf (t ++ [0x0A]) = (t.splitOnP isLineEnd).map cellsOf := by
  rw [linesOf_append_feed]
  exact List.append_nil _

private theorem Shows.length_eq {front : Line} {last : Text} {group : List Text}
    (shows : Shows front last group) : group.length = last.countP isLineEnd + 1 := by
  obtain ⟨first, later, lines, spaced⟩ := shows
  have count := congrArg List.length lines
  rw [linesOf_feed, List.length_map, length_splitOnP] at count
  rw [← spaced.length_eq, count]
  rfl

private theorem cellsOf_flatMap {front : Line} (flat : ∀ cell ∈ front, IsFlat cell) (t : Text) :
    cellsOf (front.flatMap (· ++ [0x09]) ++ t) = front ++ cellsOf t := by
  induction front with
  | nil => rfl
  | cons cell front ih =>
    obtain ⟨first, others⟩ := List.forall_mem_cons.mp flat
    have split : cellsOf (cell ++ 0x09 :: (front.flatMap (· ++ [0x09]) ++ t)) =
        cell :: cellsOf (front.flatMap (· ++ [0x09]) ++ t) := by
      rw [cellsOf, List.splitOnP_append_cons cell _ rfl,
        List.splitOnP_eq_singleton fun b member => (first b member).2]
      rfl
    rw [List.flatMap_cons, List.append_assoc, List.append_assoc]
    exact split.trans (congrArg (cell :: ·) (ih others))

private theorem linesOf_tableLine {front : Line} (flat : ∀ cell ∈ front, IsFlat cell)
    (last : Text) :
    ∃ (first : Line) (later : List Line), linesOf (last ++ [0x0A]) = first :: later ∧
      linesOf (tableLine front last) = (front ++ first) :: later := by
  have unbroken : ∀ b ∈ front.flatMap (· ++ [0x09]), isLineEnd b = false := by
    intro b member
    obtain ⟨cell, inFront, inCell⟩ := List.mem_flatMap.mp member
    rcases List.mem_append.mp inCell with inside | tab
    · exact (flat cell inFront b inside).1
    · rw [List.mem_singleton.mp tab]
      rfl
  obtain ⟨piece, pieces, parts⟩ := List.exists_cons_of_ne_nil (List.splitOnP_ne_nil isLineEnd last)
  refine ⟨cellsOf piece, pieces.map cellsOf, ?_, ?_⟩
  · rw [linesOf_feed, parts]
    rfl
  · rw [tableLine, ← List.append_assoc, linesOf_feed, splitOnP_append_front unbroken, parts]
    change cellsOf (front.flatMap (· ++ [0x09]) ++ piece) :: _ = _
    rw [cellsOf_flatMap flat]

private theorem shows_iff {front : Line} (flat : ∀ cell ∈ front, IsFlat cell) {last : Text}
    {group : List Text} :
    Shows front last group ↔ List.Forall₂ Spaced (linesOf (tableLine front last)) group := by
  obtain ⟨first, later, lines, whole⟩ := linesOf_tableLine flat last
  rw [whole]
  constructor
  · rintro ⟨first', later', lines', spaced⟩
    cases lines.symm.trans lines'
    exact spaced
  · intro spaced
    exact ⟨first, later, lines, spaced⟩

private theorem linesOf_append_tableLine (front : Line) (last back : Text) :
    linesOf (tableLine front last ++ back) = linesOf (tableLine front last) ++ linesOf back := by
  have feed : tableLine front last ++ back =
      (front.flatMap (· ++ [0x09]) ++ last) ++ 0x0A :: back := by simp [tableLine]
  have alone : tableLine front last = (front.flatMap (· ++ [0x09]) ++ last) ++ [0x0A] := by
    simp [tableLine]
  rw [feed, linesOf_append_feed, alone, linesOf_feed]

variable {α : Type} {front : α → Line} {last : α → Text}

private theorem linesOf_flatMap (items : List α) :
    linesOf (items.flatMap fun a => tableLine (front a) (last a)) =
      items.flatMap fun a => linesOf (tableLine (front a) (last a)) := by
  induction items with
  | nil => rfl
  | cons a items ih => rw [List.flatMap_cons, linesOf_append_tableLine, ih, List.flatMap_cons]

private theorem exists_groups {shown : α → List Line} {items : List α} {lines : List Text}
    (spaced : List.Forall₂ Spaced (items.flatMap shown) lines) :
    ∃ groups : List (List Text), lines = groups.flatten ∧
      List.Forall₂ (fun a group => List.Forall₂ Spaced (shown a) group) items groups := by
  induction items generalizing lines with
  | nil =>
    cases spaced
    exact ⟨[], rfl, .nil⟩
  | cons a items ih =>
    rw [List.flatMap_cons] at spaced
    have first := (List.forall₂_take_append lines _ _ spaced.flip).flip
    have others := (List.forall₂_drop_append lines _ _ spaced.flip).flip
    obtain ⟨groups, whole, each⟩ := ih others
    refine ⟨lines.take (shown a).length :: groups, ?_, .cons first each⟩
    rw [List.flatten_cons, ← whole, List.take_append_drop]

private theorem length_flatten_groups {size : α → Nat} {items : List α} {groups : List (List Text)}
    (each : List.Forall₂ (fun a group => group.length = size a + 1) items groups) :
    items.length ≤ groups.flatten.length ∧
      (groups.flatten.length = items.length ↔ ∀ a ∈ items, size a = 0) := by
  induction each with
  | nil => exact ⟨le_rfl, iff_of_true rfl (List.forall_mem_nil _)⟩
  | cons own others ih =>
    obtain ⟨enough, exact_iff⟩ := ih
    rw [List.forall_mem_cons, ← exact_iff, List.flatten_cons, List.length_append, List.length_cons,
      own]
    omega

/-- A table comes out as its heading and, in order, the lines that show its rows: one for each, and
one more for each line end in the row's last text. -/
theorem align_table {heading : Line} {title : Text} (flatHeading : ∀ cell ∈ heading, IsFlat cell)
    (flatTitle : IsFlat title) (flat : ∀ a, ∀ cell ∈ front a, IsFlat cell) (last : α → Text)
    (items : List α) :
    ∃ (head : Text) (groups : List (List Text)),
      (align (tableLine heading title ++
        items.flatMap fun a => tableLine (front a) (last a))).HasLines (head :: groups.flatten) ∧
      Spaced (heading ++ [title]) head ∧
      List.Forall₂ (fun a group => Shows (front a) (last a) group ∧
        group.length = (last a).countP isLineEnd + 1) items groups ∧
      ((head :: groups.flatten).length = items.length + 1 ↔
        ∀ a ∈ items, (last a).countP isLineEnd = 0) := by
  obtain ⟨lines, has, spaced⟩ := align_lines (tableLine heading title ++
    items.flatMap fun a => tableLine (front a) (last a))
  obtain ⟨first, later, own, whole⟩ := linesOf_tableLine flatHeading title
  have one : linesOf (title ++ [0x0A]) = [[title]] := by
    rw [linesOf_feed, List.splitOnP_eq_singleton fun b member => (flatTitle b member).1]
    change [cellsOf title] = _
    rw [cellsOf, List.splitOnP_eq_singleton fun b member => (flatTitle b member).2]
  cases own.symm.trans one
  rw [linesOf_append_tableLine, whole, linesOf_flatMap, List.singleton_append] at spaced
  cases spaced with
  | @cons _ head _ rest shown others =>
    obtain ⟨groups, rfl, each⟩ := exists_groups others
    have shows : List.Forall₂ (fun a group => Shows (front a) (last a) group ∧
        group.length = (last a).countP isLineEnd + 1) items groups := by
      refine each.imp fun a group spaced => ?_
      have shows := (shows_iff (flat a)).mpr spaced
      exact ⟨shows, shows.length_eq⟩
    obtain ⟨-, exact_iff⟩ := length_flatten_groups (shows.imp fun _ _ both => both.2)
    refine ⟨head, groups, has, shown, shows, ?_⟩
    rw [← exact_iff, List.length_cons]
    exact Nat.succ_inj

end Tables

end Columns

end JvmAssembler
