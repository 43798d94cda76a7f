import JvmAssembler.Text

/-!
# Disks

The file operations that stores, launchers and commands need, for any monad that can carry them
out.
-/

set_option autoImplicit false

namespace JvmAssembler

inductive DiskReason where
  | notFound
  | notDirectory
  | isDirectory
  | nameTooLong
  | invalidArgument
  | permissionDenied
  /-- A reason in the system's own words. -/
  | other (message : Text)
deriving DecidableEq

def DiskReason.message : DiskReason → Text
  | .notFound => "no such file or directory"
  | .notDirectory => "not a directory"
  | .isDirectory => "is a directory"
  | .nameTooLong => "file name too long"
  | .invalidArgument => "invalid argument"
  | .permissionDenied => "permission denied"
  | .other message => message

/-- A refused file operation: what was tried, on which path, and why not. -/
structure DiskError where
  action : Text
  path : Text
  reason : DiskReason
deriving DecidableEq

def DiskError.message (e : DiskError) : Text :=
  .concat [e.action, " ", e.path, ": ", e.reason.message]

structure Disk (m : Type → Type) where
  readFile : Text → m (Except DiskError Bytes)
  /-- Makes a directory and those above it, as far as they are missing. -/
  makeDirectories : Text → m (Except DiskError Unit)
  writeFile : Text → Bytes → m (Except DiskError Unit)
  /-- Makes a new directory for temporary files and gives its path. -/
  makeTemporary : m (Except DiskError Text)
  removeTree : Text → m Unit

end JvmAssembler
