import JvmAssembler.Settings.Yaml.Layout
import JvmAssembler.Settings.Yaml.Scalar

/-!
# Nodes of YAML

The first document of a file as a tree. A node may have a name, under which later nodes refer to it;
such nodes are numbered.
-/

set_option autoImplicit false

namespace JvmAssembler.Yaml

inductive Node where
  /-- A scalar with its tag; a plain one has none. -/
  | scalar (tag value : Text)
  | list (items : List Node)
  | map (entries : List (Node × Node))
  /-- The named node with a number. -/
  | reference (name : Text) (target : Nat)

def Node.empty : Node := .scalar [] []

structure Reading where
  layout : Layout
  /-- What the handles of tags stand for. -/
  handles : List (Text × Text) := []
  /-- The numbers of names, newest first. -/
  names : List (Text × Nat) := []
  /-- The named nodes by their numbers. -/
  targets : List (Nat × Node) := []

abbrev Read := StateT Reading (Except Flaw)

namespace Read

def peek : Read Token := do
  let r ← get
  let (t, layout) ← r.layout.peek
  set { r with layout }
  pure t

def advance : Read Unit := modify fun r => { r with layout := r.layout.take }

/-- The token after the next one, which becomes the next. -/
def nextPeek : Read Token := do
  advance
  peek

/-- Numbers a node by its name, if it has one. -/
def number (name : Option Text) : Read (Option Nat) := do
  match name with
  | none => pure none
  | some name =>
    let r ← get
    let n := r.names.length
    set { r with names := (name, n) :: r.names }
    pure (some n)

def note (number : Option Nat) (node : Node) : Read Node := do
  match number with
  | none => pure node
  | some n =>
    modify fun r => { r with targets := (n, node) :: r.targets }
    pure node

/-! ### Tags and names -/

def languageFront : Text := "tag:yaml.org,2002:"

def shortTag (tag : Text) : Text :=
  if Text.startsWith languageFront tag then .concat ["!!", tag.drop languageFront.length] else tag

def fullTag (handle suffix : Text) : Read Text := do
  if handle = [] then pure suffix
  else
    match (← get).handles.lookup handle with
    | none => throw .tagHandle
    | some front =>
      let tag := front ++ suffix
      if tag = [] then throw .tagHandle else pure tag

structure Properties where
  name : Option Text := none
  tag : Option Text := none

def properties : Read Properties := do
  match ← peek with
  | .anchor name =>
    match ← nextPeek with
    | .tag handle suffix =>
      advance
      pure { name, tag := some (← fullTag handle suffix) }
    | _ => pure { name }
  | .tag handle suffix =>
    match ← nextPeek with
    | .anchor name =>
      advance
      pure { name, tag := some (← fullTag handle suffix) }
    | _ => pure { tag := some (← fullTag handle suffix) }
  | _ => pure {}

/-- A scalar node. Without a tag of its own, a quoted one is a text. -/
def scalarNode (tag : Option Text) (value : Text) (isPlain : Bool) : Node :=
  match tag.filter fun tag => tag ≠ Text.ofString "!" with
  | some tag => .scalar (shortTag tag) value
  | none =>
    if !isPlain then .scalar textTag value
    else if value = Text.ofString "<<" then .scalar mergeTag value
    else .scalar [] value

/-! ### Collections -/

/-- The kinds of lists. -/
inductive ListKind where
  /-- A block of its own. -/
  | block
  /-- A block as far right as the map that it is in. -/
  | aligned
deriving DecidableEq

mutual

/-- Reads a node. Blocks are not allowed everywhere, and aligned lists only in maps. -/
def node : (fuel : Nat) → (allowsBlock allowsAligned : Bool) → Read Node
  | 0, _, _ => throw .tooDeep
  | fuel + 1, allowsBlock, allowsAligned => do
    match ← peek with
    | .reference name =>
      advance
      match (← get).names.lookup name with
      | some target => pure (.reference name target)
      | none => throw .unknownAnchor
    | _ =>
      let p ← properties
      match ← peek with
      | .scalar value isPlain =>
        advance
        note (← number p.name) (scalarNode p.tag value isPlain)
      | .flowListStart =>
        let n ← number p.name
        advance
        note n (.list (← flowItems fuel true []))
      | .flowMapStart =>
        let n ← number p.name
        advance
        note n (.map (← flowEntries fuel true []))
      | t =>
        if allowsAligned ∧ t = .blockEntry then
          let n ← number p.name
          note n (.list (← blockItems fuel .aligned []))
        else if allowsBlock ∧ t = .listStart then
          let n ← number p.name
          advance
          note n (.list (← blockItems fuel .block []))
        else if allowsBlock ∧ t = .mapStart then
          let n ← number p.name
          advance
          note n (.map (← blockEntries fuel []))
        else if p.name.isSome ∨ p.tag.isSome then
          note (← number p.name) (scalarNode p.tag [] true)
        else throw .noNode

def blockItems : (fuel : Nat) → ListKind → (found : List Node) → Read (List Node)
  | 0, _, _ => throw .tooDeep
  | fuel + 1, kind, found => do
    match ← peek with
    | .blockEntry =>
      let t ← nextPeek
      let isEmpty := t = .blockEntry ∨ t = .blockEnd ∨ kind = .aligned ∧ (t = .key ∨ t = .value)
      let item ← if isEmpty then pure Node.empty else node fuel true false
      blockItems fuel kind (item :: found)
    | t =>
      if kind = .aligned then pure found.reverse
      else if t = .blockEnd then
        advance
        pure found.reverse
      else throw .noEntry

def blockEntries : (fuel : Nat) → (found : List (Node × Node)) → Read (List (Node × Node))
  | 0, _ => throw .tooDeep
  | fuel + 1, found => do
    match ← peek with
    | .blockEnd =>
      advance
      pure found.reverse
    | .key =>
      let key ← blockPart fuel (← nextPeek)
      match ← peek with
      | .value =>
        let value ← blockPart fuel (← nextPeek)
        blockEntries fuel ((key, value) :: found)
      | _ => blockEntries fuel ((key, .empty) :: found)
    | _ => throw .noKey

def blockPart : (fuel : Nat) → (next : Token) → Read Node
  | 0, _ => throw .tooDeep
  | fuel + 1, next =>
    if next = .key ∨ next = .value ∨ next = .blockEnd then pure .empty else node fuel true true

/-- Reads the items of a list in brackets, newest first. A key makes an item a map of one entry. -/
def flowItems : (fuel : Nat) → (isFirst : Bool) → (found : List Node) → Read (List Node)
  | 0, _, _ => throw .tooDeep
  | fuel + 1, isFirst, found => do
    let t ← peek
    if t = .flowListEnd then
      advance
      pure found.reverse
    else
      if !isFirst ∧ t ≠ .flowEntry then throw .noListEnd
      let t ← if isFirst then pure t else nextPeek
      if t = .flowListEnd then
        advance
        pure found.reverse
      else if t = .key then
        let entry ← flowPair fuel (← nextPeek)
        flowItems fuel false (.map [entry] :: found)
      else
        let item ← node fuel false false
        flowItems fuel false (item :: found)

/-- Reads the one entry of a map without braces. After a missing key the next token is passed
over. -/
def flowPair : (fuel : Nat) → (next : Token) → Read (Node × Node)
  | 0, _ => throw .tooDeep
  | fuel + 1, next => do
    let key ←
      if next = .value ∨ next = .flowEntry ∨ next = .flowListEnd then
        advance
        pure Node.empty
      else node fuel false false
    match ← peek with
    | .value =>
      let t ← nextPeek
      if t = .flowEntry ∨ t = .flowListEnd then pure (key, .empty)
      else
        let value ← node fuel false false
        pure (key, value)
    | _ => pure (key, .empty)

def flowEntries :
    (fuel : Nat) → (isFirst : Bool) → (found : List (Node × Node)) → Read (List (Node × Node))
  | 0, _, _ => throw .tooDeep
  | fuel + 1, isFirst, found => do
    let t ← peek
    if t = .flowMapEnd then
      advance
      pure found.reverse
    else
      if !isFirst ∧ t ≠ .flowEntry then throw .noMapEnd
      let t ← if isFirst then pure t else nextPeek
      if t = .flowMapEnd then
        advance
        pure found.reverse
      else if t = .key then
        let t ← nextPeek
        let key ←
          if t = .value ∨ t = .flowEntry ∨ t = .flowMapEnd then pure Node.empty
          else node fuel false false
        match ← peek with
        | .value =>
          let t ← nextPeek
          let value ←
            if t = .flowEntry ∨ t = .flowMapEnd then pure Node.empty else node fuel false false
          flowEntries fuel false ((key, value) :: found)
        | _ => flowEntries fuel false ((key, .empty) :: found)
      else
        let key ← node fuel false false
        flowEntries fuel false ((key, .empty) :: found)

end

/-! ### Documents -/

def knownHandles : List (Text × Text) := [("!", "!"), ("!!", languageFront)]

def directives : (fuel : Nat) → (hasVersion : Bool) → Read Unit
  | 0, _ => pure ()
  | fuel + 1, hasVersion => do
    match ← peek with
    | .version major minor =>
      if hasVersion then throw .repeatedDirective
      if major ≠ 1 ∨ minor ≠ 1 then throw .version
      advance
      directives fuel true
    | .tagDirective handle uri =>
      if ((← get).handles.lookup handle).isSome then throw .repeatedDirective
      modify fun r => { r with handles := r.handles.concat (handle, uri) }
      advance
      directives fuel hasVersion
    | _ => modify fun r => { r with handles := r.handles ++ knownHandles }

def endsDocument : Token → Bool
  | .version _ _ | .tagDirective _ _ | .documentStart | .documentEnd | .streamEnd => true
  | _ => false

def isMarked : Token → Bool
  | .version _ _ | .tagDirective _ _ | .documentStart => true
  | _ => false

def document (fuel : Nat) : Read (Option Node) := do
  let _ ← peek
  let t ← nextPeek
  if t = .streamEnd then pure none
  else
    directives fuel false
    let root ←
      if isMarked t then do
        if (← peek) ≠ .documentStart then throw .noDocument
        let t ← nextPeek
        if endsDocument t then pure Node.empty else node fuel true false
      else node fuel true false
    let _ ← peek
    pure (some root)

end Read

/-- The first document of a file, if there is one, and its named nodes by their numbers. -/
def readDocument (file : Bytes) : Except Flaw (Option Node × List (Nat × Node)) := do
  let cs ← decode file
  let start : Reading := { layout := { cursor := .start cs } }
  let (root, r) ← (Read.document (16 * cs.length + 64)).run start
  pure (root, r.targets)

end JvmAssembler.Yaml
