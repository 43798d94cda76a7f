import JvmAssembler.Disk
import JvmAssembler.Text.Path

/-!
# File trees

A disk as a value: files and directories by their location, without links and without permissions.
Operations succeed and fail as on a POSIX system.
-/

set_option autoImplicit false

namespace JvmAssembler

inductive Node where
  | directory
  | file (contents : Bytes)
deriving DecidableEq

/-- The segments on the way from the root. -/
abbrev Location := List Text

/-- A tree of files. The root is always a directory. -/
structure FileTree where
  /-- The nodes below the root; the first node of a location counts. -/
  nodes : List (Location × Node) := []
  /-- Where paths that do not start at the root begin. -/
  workingDirectory : Location := []
  /-- Where directories for temporary files are made. -/
  temporaryDirectory : Location := []
deriving DecidableEq

namespace FileTree

def maxName : Nat := 255

def maxPath : Nat := 4095

def node? (t : FileTree) (l : Location) : Option Node :=
  if l = [] then some .directory else t.nodes.lookup l

def set (t : FileTree) (l : Location) (n : Node) : FileTree :=
  { t with nodes := (l, n) :: t.nodes.filter fun entry => entry.1 ≠ l }

inductive Lookup where
  | found (l : Location) (n : Node)
  /-- A name in a directory that nothing has yet. -/
  | free (l : Location)
  | refused (reason : DiskReason)
deriving DecidableEq

/-- The locations on the way to a location, itself included and the root left out. -/
def wayTo (l : Location) : List Location := (List.range l.length).map fun n => l.take (n + 1)

/-- Follows segments from a location. Only in a directory can one go on. -/
def walk (t : FileTree) (l : Location) : List Text → Lookup
  | [] =>
    match t.node? l with
    | some n => .found l n
    | none => .free l
  | segment :: rest =>
    match t.node? l with
    | none => .refused .notFound
    | some (.file _) => .refused .notDirectory
    | some .directory =>
      if segment = [] ∨ segment = Path.here then t.walk l rest
      else if segment = Path.above then t.walk l.dropLast rest
      else if maxName < segment.length then .refused .nameTooLong
      else t.walk (l ++ [segment]) rest

def find (t : FileTree) (path : Text) : Lookup :=
  if path.contains 0 then .refused .invalidArgument
  else if path = [] then .refused .notFound
  else if maxPath < path.length then .refused .nameTooLong
  else t.walk (if Path.isRooted path then [] else t.workingDirectory) (Text.splitOn Path.slash path)

def readFile (t : FileTree) (path : Text) : Except DiskError Bytes :=
  match t.find path with
  | .found _ (.file contents) => .ok contents
  | .found _ .directory => .error ⟨"read", path, .isDirectory⟩
  | .free _ => .error ⟨"open", path, .notFound⟩
  | .refused reason => .error ⟨"open", path, reason⟩

def writeFile (t : FileTree) (path : Text) (contents : Bytes) : Except DiskError FileTree :=
  match t.find path with
  | .found l (.file _) => .ok (t.set l (.file contents))
  | .found _ .directory => .error ⟨"open", path, .isDirectory⟩
  | .free l => .ok (t.set l (.file contents))
  | .refused reason => .error ⟨"open", path, reason⟩

/-- Makes a directory in one that exists, unless it is there. -/
def makeDirectory (t : FileTree) (path : Text) : Except DiskError FileTree :=
  match t.find path with
  | .found _ .directory => .ok t
  | .found _ (.file _) => .error ⟨"mkdir", path, .notDirectory⟩
  | .free l => .ok (t.set l .directory)
  | .refused reason => .error ⟨"mkdir", path, reason⟩

/-- The paths that lead towards a clean path, one segment more each, itself included. -/
def pathsTo (path : Text) : List Text :=
  let front : Text := if Path.isRooted path then [Path.slash] else []
  let segments := (Text.splitOn Path.slash path).filter (· ≠ [])
  (wayTo segments).map fun ss => front ++ Text.join [Path.slash] ss

/-- Makes directories in order; those made before a refusal stay. -/
def makeEach (t : FileTree) : List Text → Except DiskError Unit × FileTree
  | [] => (.ok (), t)
  | path :: paths =>
    match t.makeDirectory path with
    | .ok t => t.makeEach paths
    | .error e => (.error e, t)

/-- Makes a directory and those above it, as far as they are missing. The path is a clean one. -/
def makeDirectories (t : FileTree) (path : Text) : Except DiskError Unit × FileTree :=
  t.makeEach (pathsTo path)

def pathOf (l : Location) : Text := Path.slash :: Text.join [Path.slash] l

def isBelow (top l : Location) : Bool := top.isPrefixOf l && top.length < l.length

def makeTemporary (t : FileTree) : Text × FileTree :=
  let name : Text := .concat ["jasm-", .decimal t.nodes.length]
  let l := t.temporaryDirectory ++ [name]
  (pathOf l, t.set l .directory)

def removeTree (t : FileTree) (path : Text) : FileTree :=
  match t.find path with
  | .found top _ =>
    { t with nodes := t.nodes.filter fun entry => !(entry.1 == top || isBelow top entry.1) }
  | _ => t

/-- The files strictly below a location, by the segments from there. -/
def filesBelow (t : FileTree) (top : Location) : List (Location × Bytes) :=
  t.nodes.filterMap fun entry =>
    match entry.2 with
    | .file contents =>
      if isBelow top entry.1 then some (entry.1.drop top.length, contents) else none
    | .directory => none

def filesIn (t : FileTree) (path : Text) : List (Location × Bytes) :=
  match t.find path with
  | .found top _ => t.filesBelow top
  | _ => []

def childrenOf (t : FileTree) (top : Location) : List Location :=
  (t.nodes.map Prod.fst).filter fun l => isBelow top l && l.length == top.length + 1

/-- The tree with a directory at a location and those on the way to it. -/
def addDirectory (t : FileTree) (l : Location) : FileTree :=
  (wayTo l).foldl (fun t d => t.set d .directory) t

/-- The tree with a file at a location and the directories on the way to it. -/
def addFile (t : FileTree) (l : Location) (contents : Bytes) : FileTree :=
  (t.addDirectory l.dropLast).set l (.file contents)

def disk : Disk (StateM FileTree) where
  readFile path := fun t => (t.readFile path, t)
  makeDirectories path := fun t => t.makeDirectories path
  writeFile path contents := fun t =>
    match t.writeFile path contents with
    | .ok t => (.ok (), t)
    | .error e => (.error e, t)
  makeTemporary := fun t =>
    let (path, t) := t.makeTemporary
    (.ok path, t)
  removeTree path := fun t => ((), t.removeTree path)

end FileTree

end JvmAssembler
