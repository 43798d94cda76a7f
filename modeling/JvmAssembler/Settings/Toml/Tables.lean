import JvmAssembler.Settings.Toml.Scalar

/-!
# Tables of TOML

Which keys and tables a file has defined so far. A key gets a value once. A table is opened once,
but it may be there before as part of another one's name; and what dotted keys have made can be
added to only until the next table is opened.
-/

set_option autoImplicit false

namespace JvmAssembler.Toml

inductive SeenKind where
  | value
  | table
  /-- A list of tables, of which the last one is open. -/
  | tables
deriving DecidableEq

/-- A name that was seen, with the names below it. -/
inductive Seen where
  /-- A name that is `settled` is not added to by dotted keys; one that is `dotted` was made by
  them. -/
  | node (kind : SeenKind) (settled dotted : Bool) (below : List (Text × Seen))

namespace Seen

/-- The top of a file or of a table in braces. -/
def top : Seen := .node .table false false []

def kind : Seen → SeenKind
  | .node kind _ _ _ => kind

/-- Whether dotted keys may not add to it. -/
def isSettled : Seen → Bool
  | .node _ settled _ _ => settled

def names : Seen → List (Text × Seen)
  | .node _ _ _ below => below

def put (s : Seen) (name : Text) (child : Seen) : Seen :=
  match s with
  | .node kind settled dotted below =>
    .node kind settled dotted ((name, child) :: below.filter fun c => c.1 ≠ name)

mutual

/-- Settles what dotted keys have made below. -/
def settle : Seen → Seen
  | .node kind settled dotted below => .node kind settled dotted (settleAll below)

def settleAll : List (Text × Seen) → List (Text × Seen)
  | [] => []
  | (name, .node kind settled dotted below) :: rest =>
    (name, .node kind (settled || dotted) false (settleAll below)) :: settleAll rest

end

def update (change : Seen → Seen) : List Text → Seen → Seen
  | [], s => change s
  | name :: path, s =>
    match s.names.lookup name with
    | some child => s.put name (update change path child)
    | none => s

/-- Opens what a path leads to; the tables on the way may be new. -/
def openAt (enter : Option Seen → Except Flaw Seen) : List Text → Seen → Except Flaw Seen
  | [], s => .ok s
  | [name], s => (enter (s.names.lookup name)).map fun child => s.put name child
  | name :: path, s => do
    let child := (s.names.lookup name).getD top
    if child.kind = .value then throw (.redefined name)
    let child ← openAt enter path child
    pure (s.put name child)

def enterTable : Option Seen → Except Flaw Seen
  | none => .ok (.node .table true false [])
  | some (.node kind settled dotted below) =>
    if kind ≠ .table ∨ settled then .error .badTable else .ok (.node .table true dotted below)

def enterTables : Option Seen → Except Flaw Seen
  | none => .ok (.node .tables true false [])
  | some (.node kind settled dotted _) =>
    if kind ≠ .tables then .error .badTable else .ok (.node .tables settled dotted [])

def assign : List Text → Seen → Except Flaw Seen
  | [], s => .ok s
  | name :: path, s =>
    match s.names.lookup name, path with
    | none, [] => .ok (s.put name (.node .value false true []))
    | some _, [] => .error (.redefined name)
    | none, path => (assign path (.node .table false true [])).map fun child => s.put name child
    | some child, path =>
      if child.kind ≠ .table ∨ child.isSettled then .error (.redefined name)
      else (assign path child).map fun child => s.put name child

/-- Changes what a path leads to, if the change succeeds. -/
def updateM (change : Seen → Except Flaw Seen) : List Text → Seen → Except Flaw Seen
  | [], s => change s
  | name :: path, s =>
    match s.names.lookup name with
    | some child => (updateM change path child).map fun child => s.put name child
    | none => .ok s

end Seen

end JvmAssembler.Toml
