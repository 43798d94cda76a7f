import JvmAssembler.Assembler
import JvmAssembler.Cli.Completion
import JvmAssembler.Launch
import JvmAssembler.Listing
import JvmAssembler.Settings

/-!
# The command line

Assembles, lists and publishes class files. All that a command does to the world goes through an
environment, so that the same commands run on a disk and on a tree of files.
-/

set_option autoImplicit false

namespace JvmAssembler.Cli

structure Environment (m : Type → Type) where
  disk : Disk m
  launcher : Launcher m
  exported : List (Text × Text)
  home : Text
  /-- A fresh identifier, or why there is none. -/
  freshId : m (Except Text Uuid)
  upload : Upload → m (Except Text Unit)
  /-- Opens a database by its address. -/
  connect : Text → m (Except Text (Database m))

inductive Problem where
  | unknownCommand (u : UnknownCommand)
  | flag (p : FlagProblem)
  | argumentCount (wanted found : Nat)
  | fewArguments (wanted found : Nat)
  | foreignHome
  | unknownFormat (extension : Text)
  | document (e : Settings.DocumentError)
  | setting (e : Settings.RangeError)
  | assembly (f : Failure)
  | disk (e : DiskError)
  | notClassFile (path : Text) (e : ReadError)
  | listing (e : MethodError)
  | store (p : StoreProblem)
  | unknownStore (kind : Text)
  | noDatabase
  | notConnected (reason : Text)
  | unknownOutput (format : Text)
  | noLauncher
  | host (p : HostProblem)

namespace Problem

def message : Problem → Text
  | .unknownCommand u => u.message
  | .flag p => p.message
  | .argumentCount wanted found =>
    .concat ["accepts ", .decimal wanted, " arg(s), received ", .decimal found]
  | .fewArguments wanted found =>
    .concat ["requires at least ", .decimal wanted, " arg(s), only received ", .decimal found]
  | .foreignHome => "cannot expand user-specific home dir"
  | .unknownFormat extension => .concat ["Unsupported Config Type ", Quoted.quote extension]
  | .document e => e.message
  | .setting e => e.message
  | .assembly f => f.message
  | .disk e => e.message
  | .notClassFile path e => .concat [path, ": ", e.message]
  | .listing e => e.message
  | .store p => p.message
  | .unknownStore kind =>
    .concat ["unknown store ", Quoted.quote kind, " (expected one of [file s3 postgres])"]
  | .noDatabase => "store.postgres.url is not set"
  | .notConnected reason => .concat ["connecting to postgres: ", reason]
  | .unknownOutput format => .concat ["unknown output format ", Quoted.quote format]
  | .noLauncher => "java not found in PATH"
  | .host p => p.message

/-- The kind of a problem. Only assembling has problems with a kind. -/
def kind : Problem → Kind
  | .assembly f => f.kind
  | _ => .unspecified

end Problem

/-- What a command printed, and why it failed if it did. -/
structure Outcome where
  output : Bytes := []
  problem : Option Problem := none

def Outcome.printed (output : Bytes) : Outcome := { output }

def Outcome.failed (p : Problem) : Outcome := { problem := some p }

variable {m : Type → Type} [Monad m]

/-! ### Settings -/

def boundFlags : Command → List (String × String)
  | .publish =>
    [("store", "store.kind"), ("name", "store.name"), ("dir", "store.dir"),
     ("bucket", "store.s3.bucket"), ("prefix", "store.s3.prefix"),
     ("database-url", "store.postgres.url"), ("output", "output")]
  | _ => []

def sharedBoundFlags : List (String × String) := [("config", "config"), ("log-level", "log_level")]

def givenSettings (c : Command) (p : Parsed) : List (Settings.Key × Settings.Value) :=
  let texts := (boundFlags c ++ sharedBoundFlags).filterMap fun (flag, name) =>
    (p.value? flag).map fun value => (Settings.key name, Settings.Value.text value)
  let switches := [("no-color", "no_color"), ("computed-limits", "computed_limits")].filterMap
    fun ((flag, name) : String × String) =>
      (p.value? flag).map fun _ => (Settings.key name, Settings.Value.bool (p.isOn flag))
  texts ++ switches

/-- A path with the home directory in place of a tilde. -/
def expandHome (home path : Text) : Except Problem Text :=
  match path with
  | 0x7E :: rest =>
    match rest with
    | [] => .ok (Path.clean home)
    | b :: _ =>
      if b = Path.slash ∨ b = 0x5C then .ok (Path.join home rest) else .error .foreignHome
  | _ => .ok path

/-- Reads the settings file that was asked for. Its extension tells its format. -/
def readNamedSettings (env : Environment m) (path : Text) :
    m (Except Problem Settings.Fields) := do
  match expandHome env.home path with
  | .error p => pure (.error p)
  | .ok path =>
    let extension := Path.suffixAfterDot path
    match Settings.formats.lookup extension with
    | none => pure (.error (.unknownFormat extension))
    | some format =>
      match ← env.disk.readFile path with
      | .error e => pure (.error (.disk e))
      | .ok bytes => pure ((Settings.parseDocument format env.exported bytes).mapError .document)

def settingsNames : List Text :=
  (Settings.formats.map fun f => Text.concat ["jasm.", f.1]).concat "jasm"

/-- Where a settings file is looked for: here, then in the home directory. -/
def settingsPaths (home : Text) : List Text :=
  let below := settingsNames.map fun name => Text.concat [".config/jasm/", name]
  settingsNames ++ below.map (Path.join home)

/-- Reads the first settings file that there is. Whatever its name, it is YAML. -/
def readFirstSettings (env : Environment m) :
    List Text → m (Except Problem Settings.Fields)
  | [] => pure (.ok [])
  | path :: paths => do
    match ← env.disk.readFile path with
    | .error _ => readFirstSettings env paths
    | .ok bytes => pure ((Settings.parseDocument .yaml env.exported bytes).mapError .document)

def loadSettings (env : Environment m) (c : Command) (p : Parsed) :
    m (Except Problem Settings) := do
  let bare : Settings := { given := givenSettings c p, exported := env.exported }
  let path := bare.text "config"
  let document ←
    if path = [] then readFirstSettings env (settingsPaths env.home)
    else readNamedSettings env path
  pure (document.map fun document => { bare with document })

/-! ### Assembling a greeting -/

def assemblerOptions (s : Settings) : Except Settings.RangeError Options := do
  let major ← s.u2 "major"
  let minor ← s.u2 "minor"
  let stack ← s.u2 "max_stack"
  let locals ← s.u2 "max_locals"
  pure
    { version := ⟨major, minor⟩, limits := ⟨stack, locals⟩
      computedLimits := s.bool "computed_limits" }

def greetingBody (message : Text) : List Emission :=
  [.parameter "args",
   .field .getstatic "java/lang/System" "out" "Ljava/io/PrintStream;",
   .loadString message,
   .method .invokevirtual "java/io/PrintStream" "println" "(Ljava/lang/String;)V",
   .bare .vreturn]

/-- Assembles a class whose main method prints a message. -/
def assembleGreeting (options : Options) (name message : Text) : Except Failure Bytes := do
  let a : Assembler := { options }
  let (c, a) := a.beginClass name Assembler.defaultClassAccess []
  let (b, a) := a.beginMethod c Assembler.defaultMethodAccess "main" "([Ljava/lang/String;)V"
  let a := (greetingBody message).foldl (fun a e => a.emit b e) a
  let (ended, a) := a.endMethod b
  ended
  let (finished, a) := a.endClass c
  let _ ← finished
  a.write.1

def runClass (env : Environment m) (name : Text) (data : Bytes) : m Outcome := do
  if !(← env.launcher.isAvailable LoadedClass.defaultCommand) then pure (.failed .noLauncher)
  else
    let id ← env.freshId
    match ← LoadedClass.load env.disk LoadedClass.defaultCommand { name, data, id } with
    | .error p => pure (.failed (.host p))
    | .ok c =>
      let done ← c.invoke env.launcher []
      c.close env.disk
      pure { output := done.output, problem := (c.problem? done).map .host }

/-- Assembles a greeting, writes it, and runs it if asked to. -/
def hello (env : Environment m) (s : Settings) (p : Parsed) : m Outcome := do
  let name := p.text "name" "HelloWorld"
  match assemblerOptions s with
  | .error e => pure (.failed (.setting e))
  | .ok options =>
    match assembleGreeting options name (p.text "message" "Hello World") with
    | .error f => pure (.failed (.assembly f))
    | .ok data =>
      let id ← env.freshId
      match ← FileStore.put ⟨p.text "out" "."⟩ env.disk { name, data, id } with
      | .error problem => pure (.failed (.store problem))
      | .ok receipt =>
        let wrote : Text := .concat
          ["wrote ", receipt.location, " (", .decimal receipt.size, " bytes, sha256 ",
           receipt.digest, ")\n"]
        if p.isOn "run" then
          let ran ← runClass env name data
          pure { ran with output := wrote ++ ran.output }
        else pure (.printed wrote)

/-! ### Listing a class file -/

def readClassFile (env : Environment m) (path : Text) :
    m (Except Problem (Bytes × ClassFile)) := do
  match ← env.disk.readFile path with
  | .error e => pure (.error (.disk e))
  | .ok data =>
    match ClassFile.parse data with
    | .error e => pure (.error (.notClassFile path e))
    | .ok f => pure (.ok (data, f))

def dis (env : Environment m) (path : Text) : m Outcome := do
  match ← readClassFile env path with
  | .error p => pure (.failed p)
  | .ok (_, f) =>
    match Listing.render false f with
    | .error e => pure (.failed (.listing e))
    | .ok listing => pure (.printed listing)

/-! ### Publishing a class file -/

def putChosen (env : Environment m) (s : Settings) (r : PutRequest) :
    m (Except Problem Receipt) := do
  let kind := s.text "store.kind"
  if kind = Text.ofString "file" then
    let result ← FileStore.put ⟨s.text "store.dir"⟩ env.disk r
    pure (result.mapError .store)
  else if kind = Text.ofString "s3" then
    let store : ObjectStore := ⟨s.text "store.s3.bucket", s.text "store.s3.prefix"⟩
    let result ← store.put env.upload r
    pure (result.mapError .store)
  else if kind = Text.ofString "postgres" then
    let address := s.text "store.postgres.url"
    if address = [] then pure (.error .noDatabase)
    else
      match ← env.connect address with
      | .error reason => pure (.error (.notConnected reason))
      | .ok db =>
        match ← TableStore.ensureSchema db with
        | .error p => pure (.error (.store p))
        | .ok _ =>
          let result ← TableStore.put db r
          pure (result.mapError .store)
  else pure (.error (.unknownStore kind))

def jsonChar (c : Char) : Text :=
  let point := c.toNat
  if point = 0x22 then "\\\""
  else if point = 0x5C then "\\\\"
  else if point = 0x0A then "\\n"
  else if point = 0x0D then "\\r"
  else if point = 0x09 then "\\t"
  else if point = 0x08 then "\\b"
  else if point = 0x0C then "\\f"
  else if point < 0x20 ∨ point = 0x2028 ∨ point = 0x2029 then
    Text.ofString "\\u" ++ Text.hex 4 point
  else Utf8.encodeChar c

def jsonString (t : Text) : Text := 0x22 :: ((Utf8.chars t).flatMap jsonChar ++ [0x22])

def receiptJson (r : Receipt) : Text :=
  let fields : List (Text × Text) :=
    [("digest", jsonString r.digest), ("id", jsonString r.id.text),
     ("location", jsonString r.location), ("name", jsonString r.name), ("size", .decimal r.size)]
  let entries := fields.map fun f => Text.concat ["  ", jsonString f.1, ": ", f.2]
  .concat ["\x7b\n", Text.join ",\n" entries, "\n\x7d\n"]

def receiptText (r : Receipt) : Text :=
  .concat
    ["published ", r.name, " as ", r.location, "\n  id:     ", r.id.text, "\n  sha256: ", r.digest,
     "\n  size:   ", .decimal r.size, "\n"]

def printReceipt (format : Text) (r : Receipt) : Outcome :=
  if format = Text.ofString "json" then .printed (receiptJson r)
  else if format = [] ∨ format = Text.ofString "text" then .printed (receiptText r)
  else .failed (.unknownOutput format)

/-- Publishes a class file under its own name or the one that the settings give. -/
def publish (env : Environment m) (s : Settings) (path : Text) : m Outcome := do
  match ← readClassFile env path with
  | .error p => pure (.failed p)
  | .ok (data, f) =>
    let chosen := s.text "store.name"
    let name := if chosen = [] then f.thisName else chosen
    let id ← env.freshId
    match ← putChosen env s { name, data, id } with
    | .error p => pure (.failed p)
    | .ok receipt => pure (printReceipt (s.text "output") receipt)

/-! ### All commands -/

def versionText : Text := "jasm version dev (commit unknown, built unknown)\n"

def helpText : Text :=
  "Assemble, inspect and publish JVM class files

Usage:
  jasm hello
  jasm dis FILE
  jasm publish FILE
"

def argumentProblem? (c : Command) (arguments : List Text) : Option Problem :=
  match c.arity, arguments with
  | none, _ | some 0, [] => none
  | some 0, first :: _ => some (.unknownCommand ⟨first, c, []⟩)
  | some n, _ => if arguments.length = n then none else some (.argumentCount n arguments.length)

def runCommand (env : Environment m) (s : Settings) (c : Command) (p : Parsed) : m Outcome :=
  let argument := p.arguments.getLast?.getD []
  match c with
  | .hello => hello env s p
  | .dis => dis env argument
  | .publish => publish env s argument
  | _ => pure (.printed helpText)

def wantsHelp (c : Command) (p : Parsed) : Bool :=
  p.isOn "help" || c == .top || c == .completion

/-! ### Completing a command line -/

/-- The variables that turn descriptions on or off; the first that is not empty counts. -/
def descriptionVariables : List Text :=
  ["JASM_COMPLETION_DESCRIPTIONS", "COBRA_COMPLETION_DESCRIPTIONS"]

def hidesDescriptions (env : Environment m) : Bool :=
  let values := descriptionVariables.filterMap fun name =>
    (env.exported.lookup name).filter fun value => !value.isEmpty
  (values.head?.bind Literal.bool?) == some false

/-- Completes a command line. The settings are read first, as for every command. -/
def complete (env : Environment m) (calledAs : Text) (arguments : List Text) : m Outcome := do
  match arguments.getLast? with
  | none => pure (.failed (.fewArguments 1 0))
  | some typed =>
    match ← loadSettings env .complete {} with
    | .error problem => pure (.failed problem)
    | .ok _ =>
      let isShort := calledAs == Command.shortCompleteName || hidesDescriptions env
      pure (.printed ((completionsFor arguments.dropLast typed).text isShort))

def run (env : Environment m) (arguments : List Text) : m Outcome := do
  match findCommand arguments with
  | .error u => pure (.failed (.unknownCommand u))
  | .ok (.complete, rest) => complete env (completeName arguments rest) rest
  | .ok (c, rest) =>
    match readAll c.flags {} rest with
    | .error p => pure (.failed (.flag p))
    | .ok p =>
      if c = .top ∧ !p.isOn "help" ∧ p.isOn "version" then pure (.printed versionText)
      else if wantsHelp c p then pure (.printed helpText)
      else
        match argumentProblem? c p.arguments.reverse with
        | some problem => pure (.failed problem)
        | none =>
          match ← loadSettings env c p with
          | .error problem => pure (.failed problem)
          | .ok s => runCommand env s c p

end JvmAssembler.Cli
