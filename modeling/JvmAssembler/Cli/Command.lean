import JvmAssembler.Cli.Flags
import JvmAssembler.Text.Lowercase

/-!
# Commands

The commands of the program, their flags, and how the command is found on a command line before its
flags are known.
-/

set_option autoImplicit false

namespace JvmAssembler.Cli

inductive Shell where
  | bash
  | fish
  | powershell
  | zsh
deriving DecidableEq

def Shell.name : Shell → Text
  | .bash => "bash"
  | .fish => "fish"
  | .powershell => "powershell"
  | .zsh => "zsh"

inductive Command where
  /-- No command: the program itself. -/
  | top
  | hello
  | dis
  | publish
  | help
  | completion
  /-- The script of completions for a shell. -/
  | script (s : Shell)
  /-- What such scripts call to complete a command line. -/
  | complete
deriving DecidableEq

def programName : Text := "jasm"

namespace Command

def name : Command → Text
  | .top => programName
  | .hello => "hello"
  | .dis => "dis"
  | .publish => "publish"
  | .help => "help"
  | .completion => "completion"
  | .script s => s.name
  | .complete => "__complete"

/-- The other name of the command that completes, under which it leaves out descriptions. -/
def shortCompleteName : Text := "__completeNoDesc"

def goesBy (c : Command) (name : Text) : Bool :=
  c.name == name || (c == .complete && name == shortCompleteName)

/-- The commands with the names of the commands around them in front. -/
def path : Command → Text
  | .top => programName
  | .script s => .concat [programName, " completion ", s.name]
  | c => .concat [programName, " ", c.name]

def summary : Command → Text
  | .top => "Assemble, inspect and publish JVM class files"
  | .hello => "Assemble a class whose main method prints a message"
  | .dis => "Disassemble a class file"
  | .publish => "Publish a class file to a directory, S3 or PostgreSQL"
  | .help => "Help about any command"
  | .completion => "Generate the autocompletion script for the specified shell"
  | .script s => .concat ["Generate the autocompletion script for ", s.name]
  | .complete => "Request shell completion choices for the specified command-line"

/-- The commands inside of a command that are shown, in the order of their names. -/
def inner : Command → List Command
  | .top => [.completion, .dis, .hello, .help, .publish]
  | .completion => [.script .bash, .script .fish, .script .powershell, .script .zsh]
  | _ => []

def inner? (c : Command) (name : Text) : Option Command :=
  (if c = .top then c.inner.concat .complete else c.inner).find? fun d => d.goesBy name

/-- The flags that every command knows. -/
def sharedFlags : List Flag :=
  [{ name := "config"
     usage := "config file (default ./jasm.yaml, then ~/.config/jasm/jasm.yaml)" },
   { name := "log-level", usage := "log level: debug, info, warn, error" },
   { name := "no-color", isSwitch := true, usage := "disable colored output" },
   { name := "computed-limits", isSwitch := true, usage := "compute max stack and max locals" }]

def helpFlag (c : Command) : Flag :=
  { name := "help", letter := some 0x68, isSwitch := true, usage := .concat ["help for ", c.name] }

def versionFlag : Flag :=
  { name := "version", letter := some 0x76, isSwitch := true, usage := "version for jasm" }

def ownFlags : Command → List Flag
  | .top => [versionFlag]
  | .hello =>
    [{ name := "name", usage := "internal name of the class" },
     { name := "message", usage := "message printed by main" },
     { name := "out", letter := some 0x6F, usage := "output directory" },
     { name := "run", isSwitch := true, usage := "run the class with java after writing it" }]
  | .publish =>
    [{ name := "store", usage := "store kind: file, s3 or postgres" },
     { name := "name", usage := "class name to publish under (default: the class's own name)" },
     { name := "dir", usage := "directory of the file store" },
     { name := "bucket", usage := "S3 bucket" },
     { name := "prefix", usage := "S3 key prefix" },
     { name := "database-url", usage := "PostgreSQL connection URL" },
     { name := "output", letter := some 0x6F, usage := "output format: text or json" }]
  | .script _ =>
    [{ name := "no-descriptions", isSwitch := true, usage := "disable completion descriptions" }]
  | .dis | .help | .completion | .complete => []

def flags (c : Command) : List Flag := c.ownFlags ++ c.helpFlag :: sharedFlags

def arity : Command → Option Nat
  | .hello | .script _ => some 0
  | .dis | .publish => some 1
  | .top | .help | .completion | .complete => none

end Command

/-! ### Finding the command -/

/-- Whether an argument takes the next one as its value. Without an equals sign all long flags and
single letters do, except for known switches. -/
def takesNext (flags : List Flag) (argument : Text) : Bool :=
  !argument.contains equals &&
    match argument with
    | 0x2D :: 0x2D :: name => !(flags.any fun f => f.isSwitch && f.name == name)
    | [0x2D, letter] => !(flags.any fun f => f.isSwitch && f.letter == some letter)
    | _ => false

def isFlag (argument : Text) : Bool := argument.head? == some dash

/-- The arguments that are neither flags nor values of flags. A flag that takes its value from the
last argument ends the search. -/
def withoutFlags (flags : List Flag) : List Text → List Text
  | [] => []
  | argument :: rest =>
    if argument = terminator then []
    else if takesNext flags argument then
      match rest with
      | [] | [_] => []
      | _ :: rest => withoutFlags flags rest
    else if argument = [] ∨ isFlag argument then withoutFlags flags rest
    else argument :: withoutFlags flags rest

def withoutName (flags : List Flag) (name : Text) : List Text → List Text
  | [] => []
  | argument :: rest =>
    if argument = terminator then argument :: rest
    else if takesNext flags argument then
      match rest with
      | [] => [argument]
      | value :: rest => argument :: value :: withoutName flags name rest
    else if argument = name then rest
    else argument :: withoutName flags name rest

structure UnknownCommand where
  name : Text
  parent : Command
  suggestions : List Text
deriving DecidableEq

def UnknownCommand.message (u : UnknownCommand) : Text :=
  let suggested : Text := match u.suggestions with
    | [] => []
    | names =>
      let lines := names.map fun n => Text.concat ["\t", n, "\n"]
      .concat ("\n\nDid you mean this?\n" :: lines)
  .concat ["unknown command ", Quoted.quote u.name, " for ", Quoted.quote u.parent.path, suggested]

/-- One row of the table of edit distances: the distances of the text so far to every front of the
other text. -/
def distanceRow (row : List Nat) (b : UInt8) (other : Text) : List Nat :=
  match row with
  | [] => []
  | corner :: above =>
    let step (state : List Nat × Nat × Nat) (cell : Nat × UInt8) : List Nat × Nat × Nat :=
      let (found, left, diagonal) := state
      let distance := if cell.2 = b then diagonal else min (min left cell.1) diagonal + 1
      (distance :: found, distance, cell.1)
    let (found, _, _) := (above.zip other).foldl step ([corner + 1], corner + 1, corner)
    found.reverse

def editDistance (s t : Text) : Nat :=
  (s.foldl (fun row b => distanceRow row b t) (List.range (t.length + 1))).getLast?.getD 0

/-- The distance up to which a name is suggested. -/
def suggestionDistance : Nat := 2

def suggestionsFor (typed : Text) : List Text :=
  ([Command.hello, .dis, .publish, .completion].map Command.name).filter fun name =>
    let typed := Lowercase.lower typed
    editDistance typed name ≤ suggestionDistance || Text.startsWith typed name

/-- The command that arguments name inside of a command, at most so deep, and the arguments without
its name. -/
def findInside : (depth : Nat) → Command → List Text → Command × List Text
  | 0, c, arguments => (c, arguments)
  | depth + 1, c, arguments =>
    match withoutFlags Command.sharedFlags arguments with
    | [] => (c, arguments)
    | name :: _ =>
      match c.inner? name with
      | some d => findInside depth d (withoutName Command.sharedFlags name arguments)
      | none => (c, arguments)

def commandDepth : Nat := 2

/-- The command on a command line, and the line without its name. -/
def findCommand (arguments : List Text) : Except UnknownCommand (Command × List Text) :=
  let (c, rest) := findInside commandDepth .top arguments
  match c, withoutFlags Command.sharedFlags rest with
  | .top, name :: _ => .error ⟨name, .top, suggestionsFor name⟩
  | _, _ => .ok (c, rest)

end JvmAssembler.Cli
