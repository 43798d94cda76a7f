import JvmAssembler.Disk.FileTree
import JvmAssembler.Launch

/-!
# Launcher scripts

A launcher can be a shell script. This is the part of the shell language that such scripts need:
simple commands that are built in, quoting, positional parameters, and `&&`, `||` and `;` between
commands. Both output streams end up in one text.
-/

set_option autoImplicit false

namespace JvmAssembler.Script

open Literal (isDigit)

inductive Parameter where
  | position (n : Nat)
  | all
  | joined
  | count
  | status
  /-- A variable, of which none is set. -/
  | unset
deriving DecidableEq

/-- A part of a word. Only what is not quoted is split at blanks. -/
inductive Fragment where
  | literal (text : Text)
  | parameter (p : Parameter) (quoted : Bool)
deriving DecidableEq

abbrev Word := List Fragment

/-- When a command runs, depending on the one before it. -/
inductive Link where
  | always
  | onSuccess
  | onFailure
deriving DecidableEq

structure Command where
  link : Link
  words : List Word
deriving DecidableEq

/-! ### Reading -/

inductive Mode where
  | plain
  | single
  | double
  | escape
  | doubleEscape
  | dollar (quoted : Bool)
  | name (quoted : Bool)
  | brace (quoted : Bool) (found : Text)
  | comment
  | redirect
  | ampersand
  | bar
deriving DecidableEq

/-- The state of the reader. Lists are newest first. -/
structure Reader where
  mode : Mode := .plain
  /-- The word being read, if one has begun. -/
  word : Option Word := none
  words : List Word := []
  link : Link := .always
  commands : List Command := []
deriving DecidableEq

def isNameByte (b : UInt8) : Bool :=
  isDigit b || b == 0x5F || (0x41 ≤ b && b ≤ 0x5A) || (0x61 ≤ b && b ≤ 0x7A)

def number (digits : Text) : Nat := digits.foldl (fun n b => n * 10 + (b.toNat - 0x30)) 0

def parameterOf (name : Text) : Parameter :=
  if name = [0x40] then .all
  else if name = [0x2A] then .joined
  else if name = [0x23] then .count
  else if name = [0x3F] then .status
  else if name ≠ [] ∧ name.all isDigit then .position (number name)
  else .unset

namespace Reader

def add (r : Reader) (f : Fragment) : Reader := { r with word := some (f :: r.word.getD []) }

def begin (r : Reader) : Reader := { r with word := some (r.word.getD []) }

def endWord (r : Reader) : Reader :=
  match r.word with
  | none => r
  | some w => { r with word := none, words := w.reverse :: r.words }

/-- Ends the command; the next one depends on it as the link says. -/
def endCommand (r : Reader) (next : Link) : Reader :=
  let r := r.endWord
  if r.words = [] then { r with link := next }
  else { r with words := [], link := next, commands := ⟨r.link, r.words.reverse⟩ :: r.commands }

def around (quoted : Bool) : Mode := if quoted then .double else .plain

/-- One byte outside quotes. A word that is only the number of a stream belongs to the redirection
after it. -/
def plainStep (r : Reader) (b : UInt8) : Reader :=
  if b = 0x0A ∨ b = 0x3B then r.endCommand .always
  else if b = 0x20 ∨ b = 0x09 then r.endWord
  else if b = 0x23 ∧ r.word = none then { r with mode := .comment }
  else if b = 0x27 then { r.begin with mode := .single }
  else if b = 0x22 then { r.begin with mode := .double }
  else if b = 0x5C then { r with mode := .escape }
  else if b = 0x24 then { r with mode := .dollar false }
  else if b = 0x26 then { r with mode := .ampersand }
  else if b = 0x7C then { r with mode := .bar }
  else if b = 0x3E then
    let r := if r.word = some [.literal [0x31]] ∨ r.word = some [.literal [0x32]] then
      { r with word := none } else r.endWord
    { r with mode := .redirect }
  else r.add (.literal [b])

def doubleStep (r : Reader) (b : UInt8) : Reader :=
  if b = 0x22 then { r with mode := .plain }
  else if b = 0x5C then { r with mode := .doubleEscape }
  else if b = 0x24 then { r with mode := .dollar true }
  else r.add (.literal [b])

def resume (r : Reader) (quoted : Bool) (b : UInt8) : Reader :=
  let r := { r with mode := around quoted }
  if quoted then r.doubleStep b else r.plainStep b

def step (r : Reader) (b : UInt8) : Reader :=
  match r.mode with
  | .plain => r.plainStep b
  | .single => if b = 0x27 then { r with mode := .plain } else r.add (.literal [b])
  | .double => r.doubleStep b
  | .escape =>
    let r := { r with mode := .plain }
    if b = 0x0A then r else r.add (.literal [b])
  | .doubleEscape =>
    let r := { r with mode := .double }
    if b = 0x0A then r
    else if b = 0x24 ∨ b = 0x60 ∨ b = 0x22 ∨ b = 0x5C then r.add (.literal [b])
    else r.add (.literal [0x5C, b])
  | .dollar quoted =>
    if b = 0x7B then { r with mode := .brace quoted [] }
    else if isDigit b ∨ b = 0x40 ∨ b = 0x2A ∨ b = 0x23 ∨ b = 0x3F then
      { r with mode := around quoted }.add (.parameter (parameterOf [b]) quoted)
    else if isNameByte b then { r with mode := .name quoted }.add (.parameter .unset quoted)
    else (r.add (.literal [0x24])).resume quoted b
  | .name quoted => if isNameByte b then r else r.resume quoted b
  | .brace quoted found =>
    if b = 0x7D then
      { r with mode := around quoted }.add (.parameter (parameterOf found.reverse) quoted)
    else { r with mode := .brace quoted (b :: found) }
  | .comment => if b = 0x0A then { r with mode := .plain }.plainStep b else r
  | .redirect =>
    if b = 0x26 ∨ isNameByte b ∨ b = 0x2F then r else { r with mode := .plain }.plainStep b
  | .ampersand =>
    let r := { r with mode := .plain }
    if b = 0x26 then r.endCommand .onSuccess else (r.endCommand .always).plainStep b
  | .bar =>
    let r := { r with mode := .plain }
    if b = 0x7C then r.endCommand .onFailure else (r.endCommand .always).plainStep b

end Reader

def parse (script : Text) : List Command :=
  let r := script.foldl Reader.step {}
  (r.endCommand .always).commands.reverse

/-! ### Running -/

structure Shell where
  /-- The name the script was called by. -/
  name : Text
  parameters : List Text
  status : Nat := 0
  output : Bytes := []
  hasExited : Bool := false
deriving DecidableEq

def Shell.value (s : Shell) : Parameter → Text
  | .position 0 => s.name
  | .position (n + 1) => s.parameters.getD n []
  | .all | .joined => Text.join [0x20] s.parameters
  | .count => .decimal s.parameters.length
  | .status => .decimal s.status
  | .unset => []

def isSeparator (b : UInt8) : Bool := b == 0x20 || b == 0x09 || b == 0x0A

/-- Fields being put together: the one at the end, if it has begun, and those before it, newest
first. -/
structure Fields where
  done : List Text := []
  last : Option Text := none

namespace Fields

def add (f : Fields) (t : Text) : Fields := { f with last := some (f.last.getD [] ++ t) }

def cut (f : Fields) : Fields :=
  match f.last with
  | none => f
  | some t => ⟨t :: f.done, none⟩

def addSplit (f : Fields) (t : Text) : Fields :=
  t.foldl (fun f b => if isSeparator b then f.cut else f.add [b]) f

/-- Adds each text as a field of its own; the first and the last join what is around them. -/
def addEach (f : Fields) (add : Fields → Text → Fields) : List Text → Fields
  | [] => f
  | [t] => add f t
  | t :: u :: rest => addEach (add f t).cut add (u :: rest)

def toList (f : Fields) : List Text := f.cut.done.reverse

end Fields

def Shell.expand (s : Shell) (f : Fields) : Fragment → Fields
  | .literal t => f.add t
  | .parameter .all true => f.addEach .add s.parameters
  | .parameter .all false | .parameter .joined false => f.addEach .addSplit s.parameters
  | .parameter p true => f.add (s.value p)
  | .parameter p false => f.addSplit (s.value p)

/-- The fields of a word. A word of quotes around nothing is one empty field. -/
def Shell.fields (s : Shell) (w : Word) : List Text :=
  match w with
  | [] => [[]]
  | w => (w.foldl s.expand {}).toList

/-- The value of up to `width` octal digits at the front, and the rest. -/
def octal : (width : Nat) → (value : Nat) → Text → Nat × Text
  | 0, value, t => (value, t)
  | _ + 1, value, [] => (value, [])
  | width + 1, value, b :: t =>
    if 0x30 ≤ b ∧ b ≤ 0x37 then octal width (value * 8 + (b.toNat - 0x30)) t else (value, b :: t)

def escapedByte? (b : UInt8) : Option UInt8 :=
  if b = 0x61 then some 0x07
  else if b = 0x62 then some 0x08
  else if b = 0x66 then some 0x0C
  else if b = 0x6E then some 0x0A
  else if b = 0x72 then some 0x0D
  else if b = 0x74 then some 0x09
  else if b = 0x76 then some 0x0B
  else if b = 0x5C then some 0x5C
  else none

/-- The escape after a backslash, and the rest. In an argument, octal digits may follow a 0. -/
def escape (inArgument : Bool) : Text → Bytes × Text
  | [] => ([0x5C], [])
  | b :: t =>
    if b = 0x30 ∧ inArgument then
      let (value, rest) := octal 3 0 t
      ([value.toUInt8], rest)
    else if 0x30 ≤ b ∧ b ≤ 0x37 then
      let (value, rest) := octal 3 0 (b :: t)
      ([value.toUInt8], rest)
    else match escapedByte? b with
      | some c => ([c], t)
      | none => ([0x5C, b], t)

/-- A text with its escapes replaced, and whether `\c` has cut it short. -/
def unescape : (fuel : Nat) → (found : Bytes) → Text → Bytes × Bool
  | 0, found, _ | _, found, [] => (found.reverse, false)
  | fuel + 1, found, b :: t =>
    if b ≠ 0x5C then unescape fuel (b :: found) t
    else if t.head? = some 0x63 then (found.reverse, true)
    else
      let (bytes, rest) := escape true t
      unescape fuel (bytes.reverse ++ found) rest

def echo (arguments : List Text) : Bytes :=
  let (bare, arguments) := match arguments with
    | first :: rest => if first = Text.ofString "-n" then (true, rest) else (false, first :: rest)
    | [] => (false, [])
  let line := Text.join [0x20] arguments
  let (bytes, isCut) := unescape line.length [] line
  if bare || isCut then bytes else bytes ++ [0x0A]

def printfNumber (t : Text) : Text :=
  let (sign, digits) := match t with
    | 0x2D :: rest => ([0x2D], rest)
    | digits => (([] : Text), digits)
  if digits.all isDigit then sign ++ .decimal (number digits) else [0x30]

/-- One pass of a `printf` format over the arguments: the output and the arguments left over. -/
def printfPass : (fuel : Nat) → (found : Bytes) → Text → List Text → Bytes × List Text
  | 0, found, _, arguments | _, found, [], arguments => (found.reverse, arguments)
  | fuel + 1, found, b :: t, arguments =>
    if b = 0x5C then
      let (bytes, rest) := escape false t
      printfPass fuel (bytes.reverse ++ found) rest arguments
    else if b ≠ 0x25 then printfPass fuel (b :: found) t arguments
    else match t with
      | [] => ((b :: found).reverse, arguments)
      | c :: t =>
        let argument := arguments.headD []
        if c = 0x73 then printfPass fuel (argument.reverse ++ found) t arguments.tail
        else if c = 0x64 then
          printfPass fuel ((printfNumber argument).reverse ++ found) t arguments.tail
        else if c = 0x63 then
          printfPass fuel ((argument.take 1).reverse ++ found) t arguments.tail
        else printfPass fuel (c :: found) t arguments

/-- What `printf` prints. The format is used again as long as it takes arguments. -/
def printf (format : Text) : (fuel : Nat) → List Text → Bytes
  | 0, _ => []
  | fuel + 1, arguments =>
    let (bytes, rest) := printfPass format.length [] format arguments
    if rest = [] ∨ rest.length = arguments.length then bytes else bytes ++ printf format fuel rest

def Shell.exit (s : Shell) (status : Nat) : Shell :=
  { s with status := status % 256, hasExited := true }

def Shell.print (s : Shell) (bytes : Bytes) : Shell :=
  { s with status := 0, output := s.output ++ bytes }

def notFoundStatus : Nat := 127

def Shell.call (s : Shell) (command : Text) (arguments : List Text) : Shell :=
  if command = Text.ofString "echo" then s.print (echo arguments)
  else if command = Text.ofString "printf" then
    s.print (printf (arguments.headD []) (arguments.length + 1) arguments.tail)
  else if command = Text.ofString "exit" then
    match arguments with
    | [] => s.exit s.status
    | n :: _ => s.exit (if n.all isDigit then number n else 2)
  else if command = Text.ofString "shift" then
    let n := match arguments with
      | [] => 1
      | n :: _ => number n
    { s with status := 0, parameters := s.parameters.drop n }
  else if command = Text.ofString "true" ∨ command = Text.ofString ":" then { s with status := 0 }
  else if command = Text.ofString "false" then { s with status := 1 }
  else
    { s.print (Text.concat [command, ": not found\n"]) with status := notFoundStatus }

def Shell.takes (s : Shell) : Link → Bool
  | .always => true
  | .onSuccess => s.status == 0
  | .onFailure => s.status != 0

def Shell.step (s : Shell) (c : Command) : Shell :=
  if s.hasExited || !s.takes c.link then s
  else match c.words.flatMap s.fields with
    | [] => { s with status := 0 }
    | command :: arguments => s.call command arguments

def run (script name : Text) (arguments : List Text) : Completion :=
  let s := (parse script).foldl Shell.step { name, parameters := arguments }
  ⟨s.output, if s.status = 0 then none else some (.exitStatus s.status)⟩

/-- Why a path cannot be started as a command. Nothing in a file tree is executable. -/
def startReason (t : FileTree) (path : Text) : DiskReason :=
  match t.find path with
  | .found _ _ => .permissionDenied
  | .free _ => .notFound
  | .refused reason => reason

/-- What is wrong with a command that is no script. Only a plain name is searched for. -/
def startProblem (t : FileTree) (command : Text) : LaunchProblem :=
  if command = [Path.slash] then .isDirectory command
  else if command.contains Path.slash then
    .notStarted ⟨"fork/exec", command, startReason t command⟩
  else .notFound command

/-- A launcher that knows scripts by their commands, next to a file tree. -/
def launcher (scripts : List (Text × Text)) : Launcher (StateM FileTree) where
  isAvailable command := pure (scripts.lookup command).isSome
  run command arguments := fun t =>
    match scripts.lookup command with
    | some script => (run script command arguments, t)
    | none => (⟨[], some (startProblem t command)⟩, t)

end JvmAssembler.Script
