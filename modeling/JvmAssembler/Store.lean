import JvmAssembler.Digest
import JvmAssembler.Disk
import JvmAssembler.Log
import JvmAssembler.Text.Literal
import JvmAssembler.Text.Path
import JvmAssembler.Text.Quoted

/-!
# Stores

A store keeps class files under class names such as `com/example/Hello`. Every class file that is
stored gets a receipt, which names it by a fresh identifier and by the digest of its bytes.
-/

set_option autoImplicit false

namespace JvmAssembler

structure Uuid where
  bytes : Bytes
deriving DecidableEq

/-- An identifier in hexadecimal, in groups of 4, 2, 2, 2 and 6 bytes. -/
def Uuid.text (u : Uuid) : Text :=
  .join "-" ([u.bytes.take 4, (u.bytes.drop 4).take 2, (u.bytes.drop 6).take 2,
    (u.bytes.drop 8).take 2, u.bytes.drop 10].map .hexBytes)

inductive StoreProblem where
  | emptyName
  | invalidName (name : Text)
  | cancelled
  | noId (reason : Text)
  | disk (error : DiskError)
  | noBucket
  | uploadFailed (key reason : Text)
  | insertFailed (name reason : Text)
  | rowsAffected (name : Text) (count : Int)
  | schemaFailed (reason : Text)
deriving DecidableEq

def StoreProblem.message : StoreProblem → Text
  | .emptyName => "store: class name is empty"
  | .invalidName name => .concat ["store: invalid class name ", Quoted.quote name]
  | .cancelled => "context canceled"
  | .noId reason => .concat ["store: generating id: ", reason]
  | .disk error => .concat ["store: ", error.message]
  | .noBucket => "store: s3 bucket is not set"
  | .uploadFailed key reason => .concat ["store: s3 put ", key, ": ", reason]
  | .insertFailed name reason => .concat ["store: inserting ", name, ": ", reason]
  | .rowsAffected name count =>
    .concat ["store: inserting ", name, " affected ", .signed count, " rows"]
  | .schemaFailed reason => .concat ["store: creating schema: ", reason]

structure Receipt where
  id : Uuid
  name : Text
  digest : Text
  size : Nat
  location : Text
deriving DecidableEq

def Receipt.event (r : Receipt) : Log.Event :=
  ⟨[("id", .text r.id.text), ("name", .text r.name), ("digest", .text r.digest),
    ("size", .number r.size), ("location", .text r.location)], "class stored"⟩

structure PutRequest where
  name : Text
  data : Bytes
  /-- The identifier for the receipt, or why there is none. -/
  id : Except Text Uuid
  /-- Whether the request was cancelled before it was carried out. -/
  cancelled : Bool := false

namespace Store

def classExtension : Text := ".class"

/-- Checks that a name is relative, clean and stays inside its store. -/
def validateName (name : Text) : Except StoreProblem Unit :=
  if name = [] then .error .emptyName
  else if Path.isRooted name ∨ name.contains 0x5C then .error (.invalidName name)
  else if Path.clean name ≠ name then .error (.invalidName name)
  else if (Text.splitOn Path.slash name).any fun s => s = Path.here ∨ s = Path.above then
    .error (.invalidName name)
  else .ok ()

def receipt (r : PutRequest) : Except StoreProblem Receipt :=
  match r.id with
  | .error reason => .error (.noId reason)
  | .ok id => .ok ⟨id, r.name, Digest.hex r.data, r.data.length, []⟩

/-- The path or key of a class below a root or a key front. -/
def pathBelow (root name : Text) : Text := Path.join root (name ++ classExtension)

end Store

/-- A store that writes class files below a root directory, one directory level for each package
segment. -/
structure FileStore where
  root : Text
deriving DecidableEq

namespace FileStore

variable {m : Type → Type} [Monad m]

def path (s : FileStore) (name : Text) : Text := Store.pathBelow s.root name

def accept (r : PutRequest) : Except StoreProblem Receipt := do
  Store.validateName r.name
  if r.cancelled then throw .cancelled
  Store.receipt r

/-- Stores a class file in place of any that has the same name. -/
def put (s : FileStore) (disk : Disk m) (r : PutRequest) : m (Except StoreProblem Receipt) := do
  match accept r with
  | .error p => pure (.error p)
  | .ok receipt =>
    let path := s.path r.name
    match ← disk.makeDirectories (Path.directory path) with
    | .error e => pure (.error (.disk e))
    | .ok _ =>
      match ← disk.writeFile path r.data with
      | .error e => pure (.error (.disk e))
      | .ok _ => pure (.ok { receipt with location := path })

end FileStore

structure Upload where
  bucket : Text
  key : Text
  contentType : Text
  metadata : List (Text × Text)
  body : Bytes
deriving DecidableEq

/-- A store that uploads class files to a bucket, below a key front. -/
structure ObjectStore where
  bucket : Text
  keyFront : Text
deriving DecidableEq

namespace ObjectStore

variable {m : Type → Type} [Monad m]

def contentType : Text := "application/java-vm"

def key (s : ObjectStore) (name : Text) : Text := Store.pathBelow s.keyFront name

def accept (s : ObjectStore) (r : PutRequest) : Except StoreProblem Receipt := do
  Store.validateName r.name
  if s.bucket = [] then throw .noBucket
  Store.receipt r

def upload (s : ObjectStore) (r : PutRequest) (receipt : Receipt) : Upload :=
  { bucket := s.bucket, key := s.key r.name, contentType, body := r.data
    metadata := [("jasm-id", receipt.id.text), ("jasm-sha256", receipt.digest)] }

def put (s : ObjectStore) (send : Upload → m (Except Text Unit)) (r : PutRequest) :
    m (Except StoreProblem Receipt) := do
  match s.accept r with
  | .error p => pure (.error p)
  | .ok receipt =>
    match ← send (s.upload r receipt) with
    | .error reason => pure (.error (.uploadFailed (s.key r.name) reason))
    | .ok _ =>
      pure (.ok { receipt with location := .concat ["s3://", s.bucket, "/", s.key r.name] })

end ObjectStore

inductive Argument where
  | text (value : Text)
  | number (value : Nat)
  | bytes (value : Bytes)
deriving DecidableEq

structure Statement where
  sql : Text
  arguments : List Argument
deriving DecidableEq

/-- Carries out a statement; the answer is the database's command tag. -/
abbrev Database (m : Type → Type) := Statement → m (Except Text Text)

namespace TableStore

variable {m : Type → Type} [Monad m]

def schema : Statement :=
  ⟨"CREATE TABLE IF NOT EXISTS classes (
	id         UUID PRIMARY KEY,
	name       TEXT NOT NULL,
	digest     TEXT NOT NULL,
	size       INTEGER NOT NULL,
	data       BYTEA NOT NULL,
	created_at TIMESTAMPTZ NOT NULL DEFAULT now()
)", []⟩

def insertion (receipt : Receipt) (data : Bytes) : Statement :=
  ⟨"INSERT INTO classes (id, name, digest, size, data) VALUES ($1, $2, $3, $4, $5)",
   [.text receipt.id.text, .text receipt.name, .text receipt.digest, .number receipt.size,
    .bytes data]⟩

/-- The number of rows that a command tag speaks of: the number at its end, in 64 bits, or 0. -/
def rowsAffected (tag : Text) : Int :=
  let digits := (tag.reverse.takeWhile Literal.isDigit).reverse
  Int.bmod (digits.foldl (fun n b => n * 10 + (b.toNat - 0x30)) 0 : Nat) UInt64.size

def ensureSchema (db : Database m) : m (Except StoreProblem Unit) := do
  match ← db schema with
  | .error reason => pure (.error (.schemaFailed reason))
  | .ok _ => pure (.ok ())

def accept (r : PutRequest) : Except StoreProblem Receipt := do
  Store.validateName r.name
  Store.receipt r

def put (db : Database m) (r : PutRequest) : m (Except StoreProblem Receipt) := do
  match accept r with
  | .error p => pure (.error p)
  | .ok receipt =>
    match ← db (insertion receipt r.data) with
    | .error reason => pure (.error (.insertFailed r.name reason))
    | .ok tag =>
      if rowsAffected tag = 1 then
        pure (.ok { receipt with location := .concat ["postgres:classes/", receipt.id.text] })
      else pure (.error (.rowsAffected r.name (rowsAffected tag)))

end TableStore

end JvmAssembler
