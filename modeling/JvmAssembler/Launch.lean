import JvmAssembler.Store
import JvmAssembler.Text.Blank

/-!
# Running classes

A class is run by writing it below a temporary directory, the class path, and by calling a launcher
there. What the launcher makes of the class is passed on as it is.
-/

set_option autoImplicit false

namespace JvmAssembler

inductive LaunchProblem where
  /-- No directory of the search path has the command. -/
  | notFound (command : Text)
  | isDirectory (command : Text)
  /-- The command is a path, and what is there cannot be started. -/
  | notStarted (error : DiskError)
  /-- The command ended with a status other than 0. -/
  | exitStatus (status : Nat)
deriving DecidableEq

def LaunchProblem.message : LaunchProblem → Text
  | .notFound command =>
    .concat ["exec: ", Quoted.quote command, ": executable file not found in $PATH"]
  | .isDirectory command => .concat ["exec: ", Quoted.quote command, ": is a directory"]
  | .notStarted error => error.message
  | .exitStatus status => .concat ["exit status ", .decimal status]

/-- What comes of running a command: all it printed, and what went wrong. -/
structure Completion where
  output : Bytes
  problem : Option LaunchProblem
deriving DecidableEq

structure Launcher (m : Type → Type) where
  isAvailable : Text → m Bool
  run : Text → List Text → m Completion

inductive HostProblem where
  | noClassPath (error : DiskError)
  | notStored (problem : StoreProblem)
  | failed (command name : Text) (output : Bytes) (problem : LaunchProblem)
deriving DecidableEq

/-- The wording of a problem. What the launcher printed is quoted without the blanks around it. -/
def HostProblem.message : HostProblem → Text
  | .noClassPath error => .concat ["host: ", error.message]
  | .notStored problem => .concat ["host: ", problem.message]
  | .failed command name output problem =>
    .concat ["host: ", command, " ", name, ": ", Blank.trim output, ": ", problem.message]

structure LoadedClass where
  command : Text
  directory : Text
  receipt : Receipt
deriving DecidableEq

namespace LoadedClass

variable {m : Type → Type} [Monad m]

/-- The name a launcher knows a class by: packages are separated by dots. -/
def launchName (name : Text) : Text := name.map fun b => if b = Path.slash then 0x2E else b

def defaultCommand : Text := "java"

def chosenCommand (choice : Text) : Text := if choice = [] then defaultCommand else choice

/-- Writes a class below a new temporary directory, which goes away again if that fails. -/
def load (disk : Disk m) (command : Text) (r : PutRequest) :
    m (Except HostProblem LoadedClass) := do
  match ← disk.makeTemporary with
  | .error e => pure (.error (.noClassPath e))
  | .ok directory =>
    match ← FileStore.put ⟨directory⟩ disk r with
    | .error p =>
      disk.removeTree directory
      pure (.error (.notStored p))
    | .ok receipt => pure (.ok ⟨command, directory, receipt⟩)

def name (c : LoadedClass) : Text := launchName c.receipt.name

def loadEvents (c : LoadedClass) : List Log.Event :=
  [c.receipt.event,
   ⟨[("class", .text c.receipt.name), ("path", .text c.receipt.location)], "class loaded"⟩]

def launchArguments (c : LoadedClass) (arguments : List Text) : List Text :=
  "-cp" :: c.directory :: c.name :: arguments

def invoke (launcher : Launcher m) (c : LoadedClass) (arguments : List Text) : m Completion :=
  launcher.run c.command (c.launchArguments arguments)

def invokeEvent (c : LoadedClass) (arguments : List Text) (done : Completion) : Log.Event :=
  let called : List (Text × Log.Value) := [("class", .text c.name), ("args", .texts arguments)]
  let problem : List (Text × Log.Value) :=
    done.problem.toList.map fun p => ("error", .text p.message)
  ⟨called ++ problem, "class invoked"⟩

def problem? (c : LoadedClass) (done : Completion) : Option HostProblem :=
  done.problem.map (.failed c.command c.name done.output)

def close (disk : Disk m) (c : LoadedClass) : m Unit := disk.removeTree c.directory

end LoadedClass

end JvmAssembler
