import JvmAssembler.Settings.Document

/-!
# Settings

A setting is looked up in four places, and the first that has it counts: the command line, the
environment, the settings file, and the defaults. Keys have parts, such as `store.dir`; the parts
are maps inside maps in a file and are joined by underscores in the environment.
-/

set_option autoImplicit false

namespace JvmAssembler

abbrev Settings.Key := List Text

/-- The places where settings are looked up. -/
structure Settings where
  /-- What the command line sets. -/
  given : List (Settings.Key × Settings.Value) := []
  exported : List (Text × Text) := []
  /-- The entries of the settings file, under keys in lower case. -/
  document : Settings.Fields := []

namespace Settings

def key (name : Text) : Key := Text.splitOn 0x2E name

def Key.text (k : Key) : Text := Text.join [0x2E] k

def defaults : List (Key × Value) :=
  [(key "major", .integer 52), (key "minor", .integer 0), (key "max_stack", .integer 10),
   (key "max_locals", .integer 10), (key "computed_limits", .bool false),
   (key "log_level", .text "info"), (key "store.kind", .text "file"),
   (key "store.dir", .text "classes"), (key "store.s3.region", .text "us-east-1"),
   (key "output", .text "text")]

def variableFront : Text := "JASM"

def variableName (k : Key) : Text := (Text.join [0x5F] (variableFront :: k)).map Literal.upper

/-- The value of a setting's variable. An empty variable counts as none. -/
def environmentValue? (s : Settings) (k : Key) : Option Text :=
  match s.exported.lookup (variableName k) with
  | some [] | none => none
  | some t => some t

def parents (k : Key) : List Key := (List.range (k.length - 1)).map fun n => k.take (n + 1)

/-- The value of a key in a file. Several parts of a key may be written as one, joined by dots; the
longest such name counts. -/
def search (fuel : Nat) (entries : Fields) (k : Key) : Option Value :=
  match fuel with
  | 0 => none
  | fuel + 1 =>
    (List.range k.length).reverse.findSome? fun n =>
      let value := match entries.lookup (Key.text (k.take (n + 1))), k.drop (n + 1) with
        | some v, [] => some v
        | some (.map inner), rest => search fuel inner rest
        | _, _ => none
      value.filter fun v => !v.isNull

/-- Whether a part of a key has a value that is not a map, so that the key cannot be inside it. -/
def isShadowed (entries : Fields) : Key → Bool
  | [] | [_] => false
  | part :: rest =>
    match entries.lookup part with
    | none | some .null => false
    | some (.map inner) => isShadowed inner rest
    | some _ => true

/-- The value of a setting, if it has one. A variable or a plain value of a part of the key hides
what is further down. -/
def find? (s : Settings) (k : Key) : Option Value :=
  match s.given.lookup k with
  | some v => some v
  | none =>
    match s.environmentValue? k with
    | some t => some (.text t)
    | none =>
      if (parents k).any fun p => (s.environmentValue? p).isSome then none
      else
        match search k.length s.document k with
        | some v => some v
        | none => if isShadowed s.document k then none else defaults.lookup k

def get (s : Settings) (k : Key) : Value := (s.find? k).getD .null

def text (s : Settings) (name : String) : Text := (s.get (key name)).toText

def bool (s : Settings) (name : String) : Bool := (s.get (key name)).toBool

structure RangeError where
  key : Key
  value : Int
deriving DecidableEq

def RangeError.message (e : RangeError) : Text :=
  .concat ["config: ", e.key.text, " is ", .signed e.value, ", must be between 0 and 65535"]

def u2 (s : Settings) (name : String) : Except RangeError UInt16 :=
  let n := (s.get (key name)).toInteger
  if 0 ≤ n ∧ n ≤ 65535 then .ok n.toNat.toUInt16 else .error ⟨key name, n⟩

end Settings

end JvmAssembler
