import JvmAssembler.Text.Literal
import JvmAssembler.Text.Quoted

/-!
# Flags

A command line has arguments and flags in any order. A flag is given as `--name value` or
`--name=value`, and one with a letter also as `-o value`, `-ovalue` or `-o=value`. A switch takes a
value only after an equals sign. After `--` all is arguments.
-/

set_option autoImplicit false

namespace JvmAssembler.Cli

structure Flag where
  name : Text
  letter : Option UInt8 := none
  /-- Whether the flag is a switch, which needs no value. -/
  isSwitch : Bool := false
  usage : Text := []
deriving DecidableEq

def Flag.label (f : Flag) : Text :=
  match f.letter with
  | some letter => .concat ["-", [letter], ", --", f.name]
  | none => .concat ["--", f.name]

inductive FlagProblem where
  | badSyntax (argument : Text)
  | unknown (name : Text)
  | unknownLetter (letter : UInt8) (letters : Text)
  | noValue (argument : Text)
  | noLetterValue (letter : UInt8) (letters : Text)
  | notBool (value : Text) (flag : Flag)
deriving DecidableEq

def FlagProblem.message : FlagProblem → Text
  | .badSyntax argument => .concat ["bad flag syntax: ", argument]
  | .unknown name => .concat ["unknown flag: --", name]
  | .unknownLetter letter letters =>
    .concat ["unknown shorthand flag: ", Quoted.quoteByte letter, " in -", letters]
  | .noValue argument => .concat ["flag needs an argument: ", argument]
  | .noLetterValue letter letters =>
    .concat ["flag needs an argument: ", Quoted.quoteByte letter, " in -", letters]
  | .notBool value flag =>
    .concat ["invalid argument ", Quoted.quote value, " for ", Quoted.quote flag.label,
      " flag: strconv.ParseBool: parsing ", Quoted.quote value, ": invalid syntax"]

structure Parsed where
  /-- The flags with their values; the last one of a name counts, so it stands first. -/
  given : List (Text × Text) := []
  /-- The arguments, newest first. -/
  arguments : List Text := []
deriving DecidableEq

namespace Parsed

def value? (p : Parsed) (name : Text) : Option Text := p.given.lookup name

def text (p : Parsed) (name fallback : Text) : Text := (p.value? name).getD fallback

def isOn (p : Parsed) (name : Text) : Bool := ((p.value? name).bind Literal.bool?).getD false

def give (p : Parsed) (f : Flag) (value : Text) : Except FlagProblem Parsed :=
  if f.isSwitch ∧ Literal.bool? value = none then .error (.notBool value f)
  else .ok { p with given := (f.name, value) :: p.given }

end Parsed

def dash : UInt8 := 0x2D

def equals : UInt8 := 0x3D

def switchedOn : Text := "true"

/-- What is left to do after one argument. -/
inductive Reading where
  | done (p : Parsed)
  /-- The next argument is the value of a flag; the problem if there is none. -/
  | wantsValue (p : Parsed) (f : Flag) (otherwise : FlagProblem)

/-- Reads `--name` or `--name=value`, without the dashes. -/
def readLong (flags : List Flag) (p : Parsed) (body : Text) : Except FlagProblem Reading :=
  let argument : Text := .concat ["--", body]
  let name := body.takeWhile (· ≠ equals)
  let rest := body.dropWhile (· ≠ equals)
  if body.head? = some dash ∨ body.head? = some equals then .error (.badSyntax argument)
  else
    match flags.find? fun f => f.name == name with
    | none => .error (.unknown name)
    | some f =>
      match rest with
      | _ :: value => (p.give f value).map .done
      | [] =>
        if f.isSwitch then (p.give f switchedOn).map .done
        else .ok (.wantsValue p f (.noValue argument))

/-- What is skipped: options that a test runner would pass on. -/
def testFront : Text := "test."

/-- Reads letters after a dash. Switches may share a dash; any other flag takes the rest as its
value. -/
def readLetters (flags : List Flag) (p : Parsed) : Text → Except FlagProblem Reading
  | [] => .ok (.done p)
  | letter :: rest =>
    if Text.startsWith testFront (letter :: rest) then .ok (.done p)
    else
      match flags.find? fun f => f.letter == some letter with
      | none => .error (.unknownLetter letter (letter :: rest))
      | some f =>
        match rest with
        | 0x3D :: v :: value => (p.give f (v :: value)).map .done
        | _ =>
          if f.isSwitch then
            match p.give f switchedOn with
            | .ok p => readLetters flags p rest
            | .error e => .error e
          else if rest ≠ [] then (p.give f rest).map .done
          else .ok (.wantsValue p f (.noLetterValue letter [letter]))

/-- Reads one argument that is not the value of a flag. -/
def readOne (flags : List Flag) (p : Parsed) (argument : Text) : Except FlagProblem Reading :=
  match argument with
  | 0x2D :: 0x2D :: body => readLong flags p body
  | 0x2D :: b :: letters => readLetters flags p (b :: letters)
  | _ => .ok (.done { p with arguments := argument :: p.arguments })

def terminator : Text := "--"

def readAll (flags : List Flag) (p : Parsed) : List Text → Except FlagProblem Parsed
  | [] => .ok p
  | argument :: rest =>
    if argument = terminator then .ok { p with arguments := rest.reverse ++ p.arguments }
    else
      match readOne flags p argument with
      | .error e => .error e
      | .ok (.done p) => readAll flags p rest
      | .ok (.wantsValue p f otherwise) =>
        match rest with
        | [] => .error otherwise
        | value :: rest =>
          match p.give f value with
          | .error e => .error e
          | .ok p => readAll flags p rest

end JvmAssembler.Cli
