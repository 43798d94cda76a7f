import JvmAssembler.Cli

/-!
# The program

Runs the command line on the system's disk. The program starts no other programs and opens no
connections, so launchers and remote stores are out of its reach.
-/

set_option autoImplicit false

namespace JvmAssembler.Program

def toSystem (t : Text) : String := String.ofList (Utf8.chars t)

def reasonOf : IO.Error → DiskReason
  | .noFileOrDirectory .. | .noSuchThing .. => .notFound
  | e => .other (Text.ofString e.toString)

/-- Carries out an operation on a path and tells apart how it ended. -/
def attempt {α : Type} (action path : Text) (go : IO α) : IO (Except DiskError α) := do
  try
    let a ← go
    pure (.ok a)
  catch e => pure (.error ⟨action, path, reasonOf e⟩)

def disk : Disk IO where
  readFile path := attempt "open" path do
    let bytes ← IO.FS.readBinFile (toSystem path)
    pure bytes.data.toList
  makeDirectories path := attempt "mkdir" path (IO.FS.createDirAll (toSystem path))
  writeFile path contents :=
    attempt "open" path (IO.FS.writeBinFile (toSystem path) ⟨contents.toArray⟩)
  makeTemporary := attempt "mkdir" "jasm" do
    let path ← IO.FS.createTempDir
    pure (Text.ofString path.toString)
  removeTree path := do
    let _ ← attempt "remove" path (IO.FS.removeDirAll (toSystem path))
    pure ()

def launcher : Launcher IO where
  isAvailable _ := pure false
  run command _ := pure ⟨[], some (.notFound command)⟩

/-- A fresh identifier: random bits, marked as version 4. -/
def freshId : IO (Except Text Uuid) := do
  let bytes := (← IO.getRandomBytes 16).data
  let bytes := bytes.modify 6 fun b => b % 16 + 0x40
  let bytes := bytes.modify 8 fun b => b % 64 + 0x80
  pure (.ok ⟨bytes.toList⟩)

def settingNames : List Text :=
  ["config", "log_level", "no_color", "computed_limits", "major", "minor", "max_stack",
   "max_locals", "output", "store", "store.kind", "store.name", "store.dir", "store.s3",
   "store.s3.bucket", "store.s3.prefix", "store.postgres", "store.postgres.url"]

def exported : IO (List (Text × Text)) :=
  settingNames.filterMapM fun setting => do
    let name := Settings.variableName (Settings.key setting)
    let value ← IO.getEnv (toSystem name)
    pure (value.map fun value => (name, Text.ofString value))

def unreachable : Text := "network is unreachable"

def environment : IO (Cli.Environment IO) := do
  let home ← IO.getEnv "HOME"
  pure
    { disk, launcher, freshId
      exported := ← exported
      home := Text.ofString (home.getD "/")
      upload := fun _ => pure (.error unreachable)
      connect := fun _ => pure (.error unreachable) }

end JvmAssembler.Program

open JvmAssembler in
/-- Runs the command line. A command that fails says why and ends with status 1. -/
def main (arguments : List String) : IO UInt32 := do
  let outcome ← Cli.run (← Program.environment) (arguments.map Text.ofString)
  (← IO.getStdout).write ⟨outcome.output.toArray⟩
  match outcome.problem with
  | none => pure 0
  | some problem =>
    let message : Text := .concat [problem.message, "\n"]
    (← IO.getStderr).write ⟨message.toArray⟩
    pure 1
