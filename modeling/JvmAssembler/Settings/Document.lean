import JvmAssembler.Settings.Dotenv
import JvmAssembler.Settings.Json
import JvmAssembler.Settings.Toml
import JvmAssembler.Settings.Yaml
import JvmAssembler.Text.Lowercase

/-!
# Settings files

The formats of settings files, and what a file says. The case of keys does not matter, so they are
kept in lower case.
-/

set_option autoImplicit false

namespace JvmAssembler.Settings

inductive Format where
  | yaml
  | json
  | toml
  | dotenv
  /-- A format whose name is known, but which is not read. -/
  | unread
deriving DecidableEq

def formats : List (Text × Format) :=
  [("json", .json), ("toml", .toml), ("yaml", .yaml), ("yml", .yaml), ("properties", .unread),
   ("props", .unread), ("prop", .unread), ("hcl", .unread), ("tfvars", .unread),
   ("dotenv", .dotenv), ("env", .dotenv), ("ini", .unread)]

inductive DocumentError where
  | yaml (flaw : Yaml.Flaw)
  | json
  | toml (flaw : Toml.Flaw)
  | dotenv
  | unread
deriving DecidableEq

def DocumentError.message (e : DocumentError) : Text :=
  let reason : Text := match e with
    | .yaml flaw => .concat ["yaml: ", flaw.message]
    | .json => "invalid JSON"
    | .toml flaw => .concat ["toml: ", flaw.message]
    | .dotenv => "line doesn't match format"
    | .unread => "decoder not found for this format"
  .concat ["While parsing config: ", reason]

/-! ### Keys in lower case -/

/-- Fields under keys in lower case. Of keys that become the same, one that has changed counts. -/
def lowerKeys (fields : Fields) : Fields :=
  let isLower (f : Text × Value) : Bool := Lowercase.lower f.1 == f.1
  (fields.filter isLower ++ fields.filter fun f => !isLower f).foldl
    (fun found f => found.set (Lowercase.lower f.1) f.2) []

mutual

def lowerValue : Value → Value
  | .map fields => .map (lowerKeys (lowerValues fields))
  | v => v

def lowerValues : List (Text × Value) → List (Text × Value)
  | [] => []
  | (key, value) :: rest => (key, lowerValue value) :: lowerValues rest

end

def lowered (fields : Fields) : Fields := lowerKeys (lowerValues fields)

/-! ### Files -/

/-- The fields of a file in a format; variables of the environment may be referred to. -/
def parseFields (format : Format) (exported : List (Text × Text)) (file : Bytes) :
    Except DocumentError Fields :=
  match format with
  | .yaml => (Yaml.read file).mapError .yaml
  | .json => (Json.read? file).elim (.error .json) .ok
  | .toml => (Toml.read file).mapError .toml
  | .dotenv => (Dotenv.read? exported file).elim (.error .dotenv) .ok
  | .unread => .error .unread

def parseDocument (format : Format) (exported : List (Text × Text)) (file : Bytes) :
    Except DocumentError Fields :=
  (parseFields format exported file).map lowered

end JvmAssembler.Settings
