import JvmAssembler.Disassembly
import JvmAssembler.Text.Columns

/-!
# Listings

What a class file holds, for people to read: a heading, the constant pool as a table, and each
method with its instructions as a table. Listings may be coloured.
-/

set_option autoImplicit false

namespace JvmAssembler

inductive Paint where
  | bold | green | yellow | magenta | brightCyan
deriving DecidableEq

def Paint.number : Paint → Nat
  | .bold => 1
  | .green => 32
  | .yellow => 33
  | .magenta => 35
  | .brightCyan => 96

namespace Listing

def paint (coloured : Bool) (p : Paint) (t : Text) : Text :=
  if coloured then .concat ["\x1b[", .decimal p.number, "m", t, "\x1b[0m"] else t

/-- A part of a listing: plain text, or a table whose cells are put in columns. -/
inductive Part where
  | plain (text : Text)
  | table (text : Text)
deriving DecidableEq

def Part.render : Part → Text
  | .plain text => text
  | .table text => Columns.align text

/-- The longest string that is shown in full, in bytes. -/
def maxShown : Nat := 80

/-- A string as listings show it: one that is too long is cut, and dots stand for the rest. -/
def shortened (t : Text) : Text :=
  if maxShown < t.length then t.take (maxShown - 3) ++ Text.ofString "..." else t

def information (coloured : Bool) (r : Row) : Text :=
  match r.literal? with
  | some (.string text) => paint coloured .green (Quoted.quote (shortened text))
  | some (.integer value) => paint coloured .yellow (.signed value.toInt)
  | _ => if r.remark = [] then [] else paint coloured .brightCyan r.remark

/-- The line of an instruction, its cells separated by tabs. -/
def rowLine (coloured : Bool) (r : Row) : Text :=
  .concat ["  ", .decimal r.offset, "\t", paint coloured .bold r.name, "\t",
    .join ", " (r.operands.map .signed), "\t", information coloured r, "\n"]

def codeTable (coloured : Bool) (rows : List Row) : Text :=
  Text.ofString "  OFFSET\tOPCODE\tOPERANDS\tINFO\n" ++ rows.flatMap (rowLine coloured)

def instructions (coloured : Bool) (rows : List Row) : Text :=
  (Part.table (codeTable coloured rows)).render

/-- The line of a pool entry, its cells separated by tabs. -/
def entryLine (entry : Symbol × Nat) : Text :=
  .concat ["#", .decimal entry.2, "\t", entry.1.tag.text, "\t", entry.1.text, "\n"]

def poolTable (pool : Array Symbol) : Text :=
  Text.ofString "INDEX\tTAG\tVALUE\n" ++ (pool.toList.zipIdx 1).flatMap entryLine

def heading (coloured : Bool) (f : ClassFile) : Text :=
  .concat ["class ", paint coloured .bold f.thisName, " extends ", f.superName, " (",
    f.access.text, ")\nversion ", .decimal f.version.major.toNat, ".",
    .decimal f.version.minor.toNat, "\n\n"]

def methodParts (coloured : Bool) (m : MethodListing) : List Part :=
  let head : Text :=
    .concat ["\n", m.access.text, " ", paint coloured .magenta m.name, m.descriptor, "\n"]
  match m.code with
  | none => [.plain (head ++ Text.ofString "  no code\n")]
  | some code =>
    [.plain (.concat [head, "  max_stack=", .decimal code.limits.stack.toNat, " max_locals=",
      .decimal code.limits.locals.toNat, "\n"]),
     .table (codeTable coloured code.rows)]

def parts (coloured : Bool) (f : ClassFile) : Except MethodError (List Part) :=
  f.disassemble.map fun methods =>
    .plain (heading coloured f) :: .table (poolTable f.pool) ::
      methods.flatMap (methodParts coloured)

def render (coloured : Bool) (f : ClassFile) : Except MethodError Text :=
  (parts coloured f).map fun ps => ps.flatMap Part.render

/-- Whether all tables of a listing get through to an output that takes `room` bytes and refuses
everything from there on. Plain text that is lost goes unnoticed. -/
def tablesFit (room : Nat) (ps : List Part) : Bool :=
  (ps.foldl
    (fun (state : Nat × Bool) part =>
      let used := state.1 + part.render.length
      match part with
      | .plain _ => (used, state.2)
      | .table _ => (used, state.2 && used ≤ room))
    (0, true)).2

end Listing

end JvmAssembler
