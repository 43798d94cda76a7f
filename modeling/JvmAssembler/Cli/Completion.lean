import JvmAssembler.Cli.Command

/-!
# Completing a command line

What the last argument of a command line may become: the name of a command or of a flag, or the
value of a flag.
-/

set_option autoImplicit false

namespace JvmAssembler.Cli

/-- A word that the last argument may become, and what it is for. -/
structure Choice where
  word : Text
  description : Text := []
deriving DecidableEq

/-- What a shell does besides offering the choices. -/
inductive Directive where
  /-- Offers names of files if there are no choices. -/
  | default
  /-- Offers nothing else. -/
  | noFiles
deriving DecidableEq

def Directive.number : Directive → Nat
  | .default => 0
  | .noFiles => 4

def Directive.name : Directive → Text
  | .default => "ShellCompDirectiveDefault"
  | .noFiles => "ShellCompDirectiveNoFileComp"

structure Completions where
  choices : List Choice := []
  directive : Directive := .default
deriving DecidableEq

def Choice.line (isShort : Bool) (c : Choice) : Text :=
  if isShort ∨ c.description = [] then .concat [c.word, "\n"]
  else .concat [c.word, "\t", c.description, "\n"]

def Completions.text (c : Completions) (isShort : Bool) : Text :=
  .concat
    [c.choices.flatMap (Choice.line isShort), ":", .decimal c.directive.number, "\n",
     "Completion ended with directive: ", c.directive.name, "\n"]

/-! ### Flags -/

def findFlag (c : Command) (name : Text) : Option Flag :=
  match name with
  | [letter] => c.flags.find? fun f => f.letter == some letter
  | _ => c.flags.find? fun f => f.name == name

def namesFlag : Text → Bool
  | 0x2D :: 0x2D :: rest => !rest.isEmpty
  | 0x2D :: rest => !rest.isEmpty
  | _ => false

/-- The name in an argument that names a flag: all of it, or the last of its letters. -/
def flagName (argument : Text) : Text :=
  match argument with
  | 0x2D :: 0x2D :: name => name
  | _ => argument.getLast?.toList

/-- What is typed at the end of a command line. -/
structure Spot where
  /-- The flag whose value is typed. -/
  flag : Option Flag := none
  /-- The arguments before it, without that flag. -/
  arguments : List Text
  typed : Text
  /-- Whether it is the value of a flag that there is not. -/
  isUnknown : Bool := false

def startsName (typed : Text) : Bool := isFlag typed && !typed.contains equals

def spotOf (c : Command) (arguments : List Text) (typed : Text) : Spot :=
  if startsName typed then { arguments, typed }
  else
    let front := typed.takeWhile (· ≠ equals)
    let isJoined := isFlag typed
    let value := if isJoined then typed.drop (front.length + 1) else typed
    let joinedName := if isJoined then flagName front else []
    let last := arguments.getLast?.getD []
    let (name, before) :=
      if joinedName ≠ [] then (joinedName, arguments)
      else if namesFlag last ∧ !last.contains equals then (flagName last, arguments.dropLast)
      else ([], arguments)
    if name = [] then { arguments := before, typed := value }
    else
      match findFlag c name with
      | none => { arguments, typed, isUnknown := true }
      | some f =>
        if f.isSwitch ∧ !isJoined then { arguments, typed := value }
        else { flag := some f, arguments := before, typed := value }

/-- The spellings of a flag that a typed text may become. -/
def flagChoices (typed : Text) (f : Flag) : List Choice :=
  let long : Text := .concat ["--", f.name]
  let short := f.letter.toList.map fun letter => [dash, letter]
  ((long :: short).filter fun word => Text.startsWith typed word).map fun word => ⟨word, f.usage⟩

def sortFlags (flags : List Flag) : List Flag := flags.mergeSort fun f g => f.name ≤ g.name

/-- The flags of a command as they are offered: those of all commands first. -/
def offeredFlags (c : Command) : List Flag :=
  if c = .top then sortFlags c.flags
  else sortFlags Command.sharedFlags ++ sortFlags (c.ownFlags ++ [c.helpFlag])

/-- The flags that may be typed and are not given yet. -/
def flagNames (c : Command) (given : Parsed) (typed : Text) : List Choice :=
  ((offeredFlags c).filter fun f => (given.value? f.name).isNone).flatMap (flagChoices typed)

def storeKinds : List Text := ["file", "s3", "postgres"]

def valueCompletions (c : Command) (f : Flag) : Completions :=
  if c = .publish ∧ f.name = Text.ofString "store" then
    ⟨storeKinds.map fun kind => { word := kind }, .noFiles⟩
  else {}

/-! ### Commands -/

def commandChoices (c : Command) (typed : Text) : List Choice :=
  (c.inner.filter fun d => Text.startsWith typed d.name).map fun d => ⟨d.name, d.summary⟩

def argumentCompletions (c : Command) (arguments : List Text) (typed : Text) : Completions :=
  match c with
  | .help =>
    match findCommand arguments with
    | .ok (d, _) => ⟨commandChoices d typed, .noFiles⟩
    | .error _ => ⟨[], .noFiles⟩
  | .completion | .script _ => ⟨[], .noFiles⟩
  | _ => {}

/-- The completions of an argument that is no flag: a command, or an argument of one. -/
def wordCompletions (c : Command) (arguments : List Text) (typed : Text) : Completions :=
  let commands := if arguments = [] then c.inner else []
  let choices := if arguments = [] then commandChoices c typed else []
  let more := argumentCompletions c arguments typed
  ⟨choices ++ more.choices, if commands = [] then more.directive else .noFiles⟩

/-- The completions after arguments of a command. After two dashes no flags are completed. -/
def commandCompletions (c : Command) (arguments : List Text) (typed : Text) : Completions :=
  let spot := spotOf c arguments typed
  match readAll c.flags {} spot.arguments,
      readAll c.flags {} (spot.arguments.concat terminator) with
  | .ok given, .ok closed =>
    let hasFlags : Bool := closed.arguments.length ≤ given.arguments.length
    if spot.isUnknown ∧ hasFlags then {}
    else if (given.value? "help").isSome ∨ (given.value? "version").isSome then ⟨[], .noFiles⟩
    else if spot.flag.isNone ∧ startsName spot.typed ∧ hasFlags then
      ⟨flagNames c given spot.typed, .noFiles⟩
    else
      match spot.flag, hasFlags with
      | some f, true => valueCompletions c f
      | some _, false => argumentCompletions c given.arguments.reverse spot.typed
      | none, _ => wordCompletions c given.arguments.reverse spot.typed
  | _, _ => {}

/-- The completions of a command line: the arguments before the last one, and the last one. -/
def completionsFor (arguments : List Text) (typed : Text) : Completions :=
  match findCommand arguments with
  | .error _ => {}
  | .ok (.complete, _) =>
    if startsName typed then ⟨flagNames .complete {} typed, .noFiles⟩ else {}
  | .ok (c, rest) => commandCompletions c rest typed

/-- The name by which completing was asked for last; its arguments may ask for it again. -/
def completeName (arguments rest : List Text) : Text :=
  let first (arguments : List Text) : Text :=
    (withoutFlags Command.sharedFlags arguments).head?.getD []
  match findCommand rest.dropLast with
  | .ok (.complete, _) => first rest.dropLast
  | _ => first arguments

end JvmAssembler.Cli
