import JvmAssembler.Settings.Yaml.Node

/-!
# Settings in YAML

The first document of a file as settings: a map at the top, whose keys are taken as they are
written. References are replaced by what they name, and the key `<<` takes over the entries of other
maps.
-/

set_option autoImplicit false

namespace JvmAssembler.Yaml

open Settings (Value Fields)

/-! ### Too many references -/

/-- How many nodes were looked at, and how many of them inside references. -/
structure Tally where
  nodes : Nat := 0
  inReferences : Nat := 0

/-- The share of nodes inside references that is allowed, in parts of ten thousand times the width
of the range in which it falls from 99 to 10 percent. -/
def allowedShare (nodes : Nat) : Nat :=
  let low := 400000
  let width := 3600000
  if nodes ≤ low then 9900 * width
  else if low + width ≤ nodes then 1000 * width
  else 9900 * width - 8900 * (nodes - low)

/-- Whether a file repeats too much by references. -/
def Tally.isExcessive (t : Tally) : Bool :=
  100 < t.inReferences && 1000 < t.nodes
    && allowedShare t.nodes * t.nodes < t.inReferences * (10000 * 3600000)

abbrev Look := StateT Tally (Except Flaw)

def tick (isInside : Bool) : Look Unit := do
  let t ← get
  let t : Tally := ⟨t.nodes + 1, if isInside then t.inReferences + 1 else t.inReferences⟩
  if t.isExcessive then throw .manyAliases
  set t

/-! ### Keys -/

def keyTag (targets : List (Nat × Node)) : Node → Text
  | .scalar tag value => if tag = [] then tagOf (plainValue value true) else tag
  | .list _ => "!!seq"
  | .map _ => "!!map"
  | .reference _ target =>
    match targets.lookup target with
    | some (.scalar tag value) => if tag = [] then tagOf (plainValue value true) else tag
    | _ => []

/-- Whether a key takes over the entries of other maps. -/
def isMerge : Node → Bool
  | .scalar tag value => tag == mergeTag && value == Text.ofString "<<"
  | _ => false

def hasTextKeys (targets : List (Nat × Node)) (entries : List (Node × Node)) : Bool :=
  entries.all fun e => keyTag targets e.1 == textTag || keyTag targets e.1 == mergeTag

/-- What keys are compared by: their kind and what is written. -/
def identity : Node → Nat × Text
  | .scalar _ value => (0, value)
  | .list _ => (1, [])
  | .map _ => (2, [])
  | .reference name _ => (3, name)

def hasRepeatedKey : List (Node × Node) → Bool
  | [] => false
  | e :: rest => rest.any (fun f => identity f.1 == identity e.1) || hasRepeatedKey rest

def keyText : Value → Except Flaw Text
  | .list | .map _ => .error .collectionKey
  | v => .ok v.toText

/-! ### Values -/

/-- The maps whose entries are taken over. -/
def mergeSources (targets : List (Nat × Node)) (node : Node) : Except Flaw (List Node) :=
  let isMap : Node → Bool
    | .map _ => true
    | .reference _ target =>
      match targets.lookup target with
      | some (.map _) => true
      | _ => false
    | _ => false
  match node with
  | .list items => if items.all isMap then .ok items else .error .badMerge
  | _ => if isMap node then .ok [node] else .error .badMerge

def mergeValue? (entries : List (Node × Node)) : Option Node :=
  (entries.reverse.find? fun e => isMerge e.1).map Prod.snd

variable (targets : List (Nat × Node))

mutual

/-- The value of a node; `around` are the references that it is inside of. -/
def valueOf : (fuel : Nat) → (around : List Nat) → Node → Look Value
  | 0, _, _ => throw .manyAliases
  | fuel + 1, around, node => do
    tick (!around.isEmpty)
    match node with
    | .scalar tag value => scalarValue tag value
    | .list items =>
      valuesOf fuel around items
      pure .list
    | .map entries =>
      let (fields, _) ← fieldsOf fuel around (hasTextKeys targets entries) entries none []
      pure (.map fields)
    | .reference _ target =>
      if around.contains target then throw .ownAnchor
      match targets.lookup target with
      | some node => valueOf fuel (target :: around) node
      | none => throw .unknownAnchor

def valuesOf : (fuel : Nat) → (around : List Nat) → List Node → Look Unit
  | 0, _, _ | _, _, [] => pure ()
  | fuel + 1, around, node :: rest => do
    let _ ← valueOf fuel around node
    valuesOf fuel around rest

/-- The text of a key in a map whose keys are texts; a key that says nothing has none. -/
def textKey : (fuel : Nat) → (around : List Nat) → Node → Look (Option Text)
  | 0, _, _ => throw .manyAliases
  | fuel + 1, around, node => do
    tick (!around.isEmpty)
    match node with
    | .scalar tag value =>
      match ← scalarValue tag value with
      | .null => pure none
      | .text t => pure (some t)
      | _ => pure (some value)
    | .list _ | .map _ => throw .collectionKey
    | .reference _ target =>
      if around.contains target then throw .ownAnchor
      match targets.lookup target with
      | some node => textKey fuel (target :: around) node
      | none => throw .unknownAnchor

/-- Adds the entries of a map. When they are taken over by another map, `seen` are the keys that it
has already; they are left out. -/
def fieldsOf : (fuel : Nat) → (around : List Nat) → (isText : Bool) → List (Node × Node) →
    (seen : Option (List Text)) → Fields → Look (Fields × Option (List Text))
  | 0, _, _, _, _, _ => throw .manyAliases
  | fuel + 1, around, isText, entries, seen, fields => do
    if hasRepeatedKey entries then throw .repeatedKey
    let (fields, seen) ← ownFields fuel around isText entries seen fields
    match mergeValue? entries with
    | none => pure (fields, seen)
    | some node =>
      let sources ← mergeSources targets node
      match seen with
      | some _ => mergedFields fuel around isText sources seen fields
      | none =>
        valuesOf fuel around (entries.map Prod.fst)
        let (fields, _) ←
          mergedFields fuel around isText sources (some (fields.map Prod.fst)) fields
        pure (fields, none)

def ownFields : (fuel : Nat) → (around : List Nat) → (isText : Bool) → List (Node × Node) →
    (seen : Option (List Text)) → Fields → Look (Fields × Option (List Text))
  | 0, _, _, _, seen, fields | _, _, _, [], seen, fields => pure (fields, seen)
  | fuel + 1, around, isText, (key, value) :: rest, seen, fields => do
    if isMerge key then ownFields fuel around isText rest seen fields
    else
      let name ←
        if isText then textKey fuel around key
        else do
          let v ← valueOf fuel around key
          pure (some (← keyText v))
      match name with
      | none => ownFields fuel around isText rest seen fields
      | some name =>
        if (seen.map fun names => names.contains name).getD false then
          ownFields fuel around isText rest seen fields
        else
          let value ← valueOf fuel around value
          let seen := seen.map fun names => name :: names
          ownFields fuel around isText rest seen (fields.set name value)

def mergedFields : (fuel : Nat) → (around : List Nat) → (isText : Bool) → (sources : List Node) →
    (seen : Option (List Text)) → Fields → Look (Fields × Option (List Text))
  | 0, _, _, _, seen, fields | _, _, _, [], seen, fields => pure (fields, seen)
  | fuel + 1, around, isText, node :: rest, seen, fields => do
    let (fields, seen) ← sourceFields fuel around isText node seen fields
    mergedFields fuel around isText rest seen fields

def sourceFields : (fuel : Nat) → (around : List Nat) → (isText : Bool) → (source : Node) →
    (seen : Option (List Text)) → Fields → Look (Fields × Option (List Text))
  | 0, _, _, _, _, _ => throw .manyAliases
  | fuel + 1, around, isText, source, seen, fields => do
    tick (!around.isEmpty)
    match source with
    | .map entries => fieldsOf fuel around isText entries seen fields
    | .reference _ target =>
      if around.contains target then throw .ownAnchor
      match targets.lookup target with
      | some node => sourceFields fuel (target :: around) isText node seen fields
      | none => throw .unknownAnchor
    | _ => throw .badMerge

end

/-! ### Files -/

def documentFields (fuel : Nat) (root : Node) : Look Fields := do
  tick false
  tick false
  match root with
  | .map entries =>
    let (fields, _) ← fieldsOf targets fuel [] true entries none []
    pure fields
  | .scalar tag value =>
    match ← scalarValue tag value with
    | .null => pure []
    | _ => throw .notMap
  | _ => throw .notMap

def read (file : Bytes) : Except Flaw Fields := do
  match ← readDocument file with
  | (none, _) => pure []
  | (some root, targets) =>
    let fuel := (16 * file.length + 64) * (targets.length + 2)
    let (fields, _) ← (documentFields targets fuel root).run {}
    pure fields

end JvmAssembler.Yaml
