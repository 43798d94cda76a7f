import JvmAssembler.Text.Utf8

/-!
# Columns

Text with tab-separated cells is laid out in columns. A column is a run of neighbouring lines that
have a cell at its position which is not their last, inside one run of the position before; it is
as wide as its widest cell and two spaces more. The last cell of a line belongs to no column.

There is no escape: the byte 0xFF, which could protect tabs and line ends from being read as such,
is in no text that comes here, since the texts of a class file are decoded to UTF-8 and all else in
a listing is ASCII.
-/

set_option autoImplicit false

namespace JvmAssembler.Columns

/-- A line as its cells, the last one being the text before the line end. -/
abbrev Line := List Text

/-- The number of spaces between a column's widest cell and the next column. -/
def gap : Nat := 2

def pad (width : Nat) (cell : Text) : Text :=
  cell ++ List.replicate (width - Utf8.count cell) 0x20

/-- Whether a line's first cell is not its last. -/
def hasColumn (line : Line) : Bool := 2 ≤ line.length

/-- The width of a column that holds the first cells of the given lines. -/
def columnWidth (lines : List Line) : Nat :=
  lines.foldl (fun width line => max width (Utf8.count (line.headD []) + gap)) 0

/-- Maximal runs of neighbours that agree on a test, in order. -/
def runs {α : Type} (test : α → Bool) (items : List α) : List (List α) :=
  items.splitBy fun a b => test a == test b

/-- Lays out lines that stand in one run of all earlier positions, at most `positions` columns
deep. -/
def layout : (positions : Nat) → List Line → List Text
  | 0, lines => lines.map List.flatten
  | positions + 1, lines =>
    (runs hasColumn lines).flatMap fun run =>
      if run.any hasColumn then
        let width := columnWidth run
        List.zipWith (fun line rest => pad width (line.headD []) ++ rest) run
          (layout positions (run.map List.tail))
      else run.map List.flatten

def depth (lines : List Line) : Nat := lines.foldl (fun n line => max n line.length) 0

def renderBlock (lines : List Line) : Text :=
  (layout (depth lines) lines).flatMap (· ++ [0x0A])

/-- The state of reading cells: lines of the current block, cells of the current line, bytes of
the current cell, all newest first, and the finished output. -/
structure Scan where
  done : List Text := []
  lines : List Line := []
  cells : List Text := []
  cell : List UInt8 := []

def Scan.endLine (s : Scan) : Scan :=
  { s with lines := (s.cell.reverse :: s.cells).reverse :: s.lines, cells := [], cell := [] }

/-- Lays out the lines read so far; no column continues past this point. -/
def Scan.endBlock (s : Scan) : Scan :=
  { s with done := renderBlock s.lines.reverse :: s.done, lines := [] }

/-- Reads one byte. A tab or vertical tab ends a cell, a line feed a line, a form feed a block. A
line without a tab ends the block too. -/
def Scan.step (s : Scan) (b : UInt8) : Scan :=
  if b = 0x09 ∨ b = 0x0B then { s with cells := s.cell.reverse :: s.cells, cell := [] }
  else if b = 0x0A then if s.cells.isEmpty then s.endLine.endBlock else s.endLine
  else if b = 0x0C then s.endLine.endBlock
  else { s with cell := b :: s.cell }

/-- The text with its cells in columns. Every line of the text is ended by a line or form feed. -/
def align (t : Text) : Text := (t.foldl Scan.step {}).endBlock.done.reverse.flatten

end JvmAssembler.Columns
