import JvmAssembler.Settings.Yaml.Token

/-!
# The layout of YAML

The tokens of a file in order. Outside of brackets, indentation decides where lists and maps begin
and end, and a colon makes what stands before it on the line a key; so tokens wait in a queue until
it is known what they are.
-/

set_option autoImplicit false

namespace JvmAssembler.Yaml

/-- A place where a key without a mark may have begun. -/
structure KeyPlace where
  isPossible : Bool := false
  /-- Whether nothing else but a key can stand there. -/
  isRequired : Bool := false
  /-- The number of its token. -/
  number : Nat := 0
  index : Nat := 0
  line : Nat := 0
  column : Nat := 0

structure Layout where
  cursor : Cursor
  hasStarted : Bool := false
  /-- Whether a key without a mark may begin here. -/
  keyAllowed : Bool := false
  /-- The indentation of the block; −1 outside of all. -/
  indent : Int := -1
  /-- The indentations of the blocks around, innermost first. -/
  outer : List Int := []
  /-- The possible keys of the brackets around and of the block, innermost first. -/
  keys : List KeyPlace := [{}]
  queue : List Token := []
  /-- The number of tokens that were taken. -/
  taken : Nat := 0

namespace Layout

def depth (l : Layout) : Nat := l.keys.length - 1

def inFlow (l : Layout) : Bool :=
  match l.keys with
  | _ :: _ :: _ => true
  | _ => false

def maxDepth : Nat := 10000

def push (l : Layout) (t : Token) : Layout := { l with queue := l.queue ++ [t] }

def insertAt (l : Layout) (number : Nat) (t : Token) : Layout :=
  let place := number - l.taken
  { l with queue := l.queue.take place ++ t :: l.queue.drop place }

def moveTo (l : Layout) (c : Cursor) : Layout := { l with cursor := c }

/-! ### Keys without a mark -/

def maxKeyLength : Nat := 1024

/-- Whether a place may still turn out to be a key. Keys stand on one line and are not too long. -/
def isKey (k : KeyPlace) (c : Cursor) : Except Flaw Bool :=
  if !k.isPossible then .ok false
  else if k.line < c.line ∨ k.index + maxKeyLength < c.index then
    if k.isRequired then .error .noColon else .ok false
  else .ok true

def dropKey (l : Layout) : Except Flaw Layout :=
  match l.keys with
  | [] => .ok l
  | k :: around =>
    if k.isPossible ∧ k.isRequired then .error .noColon
    else .ok { l with keys := { k with isPossible := false } :: around }

def noteKey (l : Layout) : Except Flaw Layout :=
  if !l.keyAllowed then .ok l
  else
    match l.dropKey with
    | .error e => .error e
    | .ok l =>
      let k : KeyPlace :=
        { isPossible := true
          isRequired := !l.inFlow && l.indent == l.cursor.column
          number := l.taken + l.queue.length
          index := l.cursor.index, line := l.cursor.line, column := l.cursor.column }
      .ok { l with keys := k :: l.keys.drop 1 }

/-! ### Indentation -/

/-- Opens a block when a column is farther right than the block. Its token goes to the end or in
front of another one. -/
def openBlock (l : Layout) (column : Nat) (before : Option Nat) (t : Token) : Except Flaw Layout :=
  if l.inFlow ∨ column ≤ l.indent then .ok l
  else if maxDepth < l.outer.length + 1 then .error .tooDeep
  else
    let l := { l with outer := l.indent :: l.outer, indent := column }
    .ok (match before with
      | some number => l.insertAt number t
      | none => l.push t)

/-- Closes the blocks that are farther right than a column; `outer` are the blocks around. -/
def closeFrom (column : Int) (l : Layout) : List Int → Layout
  | [] => { l with outer := [] }
  | indent :: outer =>
    if column < l.indent then closeFrom column { l.push .blockEnd with indent } outer
    else { l with outer := indent :: outer }

def closeBlocks (l : Layout) (column : Int) : Layout :=
  if l.inFlow then l else closeFrom column l l.outer

/-! ### Gaps and comments -/

/-- The place behind the gaps in front of a comment, if one is next. -/
def toComment? : (fuel : Nat) → Cursor → Option Cursor
  | 0, _ => none
  | fuel + 1, c =>
    match c.next? with
    | some ch =>
      if ch = '#' then some c
      else if isBlank ch then toComment? fuel (c.skip 1)
      else if isBreak ch then toComment? fuel c.skipBreak
      else none
    | none => none

/-- The place behind a comment and the comments on the lines below it. -/
def skipComments : (fuel : Nat) → Cursor → Cursor
  | 0, c => c
  | fuel + 1, c =>
    let c := c.skipLine
    match toComment? c.left c with
    | some c => skipComments fuel c
    | none => c

/-- The place of the next token, and whether a line has ended before it. Where a key may begin, tabs
are no gap. -/
def nextToken (inFlow : Bool) : (fuel : Nat) → (keyAllowed : Bool) → Cursor → Bool × Cursor
  | 0, keyAllowed, c => (keyAllowed, c)
  | fuel + 1, keyAllowed, c =>
    let c := if c.column = 0 ∧ c.next? = some '\ufeff' then c.skip 1 else c
    let c := c.skipWhile fun ch => ch == ' ' || ((inFlow || !keyAllowed) && ch == '\t')
    let c := if c.next? = some '#' then skipComments (c.left + 1) c else c
    if c.nextIs isBreak then nextToken inFlow fuel (keyAllowed || !inFlow) c.skipBreak
    else (keyAllowed, c)

def toNextToken (l : Layout) : Layout :=
  let (keyAllowed, cursor) := nextToken l.inFlow (l.cursor.left + 1) l.keyAllowed l.cursor
  { l with keyAllowed, cursor }

def skipLineComment (l : Layout) : Layout :=
  if l.cursor.isFresh ∨ l.queue.getLast? = some .blockEntry then l
  else
    let c := l.cursor.skipWhile isBlank
    if c.next? = some '#' then l.moveTo c.skipLine else l

/-! ### Tokens -/

def fetchEnd (l : Layout) : Except Flaw Layout := do
  let c := l.cursor
  let c := if c.column = 0 then c else { c with column := 0, line := c.line + 1 }
  let l ← ((l.moveTo c).closeBlocks (-1)).dropKey
  pure ({ l with keyAllowed := false }.push .streamEnd)

def fetchDirective (l : Layout) : Except Flaw Layout := do
  let l ← (l.closeBlocks (-1)).dropKey
  let (t, c) ← readDirective l.cursor
  pure ({ l with keyAllowed := false, cursor := c }.push t)

def fetchMark (l : Layout) (t : Token) : Except Flaw Layout := do
  let l ← (l.closeBlocks (-1)).dropKey
  pure ({ l with keyAllowed := false, cursor := l.cursor.skip 3 }.push t)

def fetchOpening (l : Layout) (t : Token) : Except Flaw Layout := do
  let l ← l.noteKey
  let l := { l with keys := {} :: l.keys, keyAllowed := true, cursor := l.cursor.skip 1 }
  if maxDepth < l.depth then throw .tooDeep
  pure (l.push t)

def fetchClosing (l : Layout) (t : Token) : Except Flaw Layout := do
  let l ← l.dropKey
  let keys := if l.inFlow then l.keys.drop 1 else l.keys
  pure ({ l with keys, keyAllowed := false, cursor := l.cursor.skip 1 }.push t)

def fetchComma (l : Layout) : Except Flaw Layout := do
  let l ← l.dropKey
  pure ({ l with keyAllowed := true, cursor := l.cursor.skip 1 }.push .flowEntry)

def fetchDash (l : Layout) : Except Flaw Layout := do
  if !l.inFlow ∧ !l.keyAllowed then throw .entryPlace
  let l ← l.openBlock l.cursor.column none .listStart
  let l ← l.dropKey
  pure ({ l with keyAllowed := true, cursor := l.cursor.skip 1 }.push .blockEntry)

def fetchKey (l : Layout) : Except Flaw Layout := do
  if !l.inFlow ∧ !l.keyAllowed then throw .keyPlace
  let l ← l.openBlock l.cursor.column none .mapStart
  let l ← l.dropKey
  pure ({ l with keyAllowed := !l.inFlow, cursor := l.cursor.skip 1 }.push .key)

/-- The colon of a value. If a key without a mark stands before it, the key is marked now. -/
def fetchValue (l : Layout) : Except Flaw Layout := do
  let k := l.keys.head?.getD {}
  let l ←
    if ← isKey k l.cursor then
      let l := l.insertAt k.number .key
      let l ← l.openBlock k.column (some k.number) .mapStart
      pure { l with keyAllowed := false, keys := { k with isPossible := false } :: l.keys.drop 1 }
    else
      if !l.inFlow ∧ !l.keyAllowed then throw .valuePlace
      let l ← l.openBlock l.cursor.column none .mapStart
      pure { l with
        keyAllowed := !l.inFlow
        keys := { k with isPossible := false } :: l.keys.drop 1 }
  pure ({ l with cursor := l.cursor.skip 1 }.push .value)

/-- A token with which a key may begin, but not in the midst of one. -/
def fetchNamed (l : Layout) (read : Cursor → Except Flaw (Token × Cursor)) :
    Except Flaw Layout := do
  let l ← l.noteKey
  let (t, c) ← read l.cursor
  pure ({ l with keyAllowed := false, cursor := c }.push t)

def fetchName (l : Layout) (make : Text → Token) : Except Flaw Layout :=
  l.fetchNamed fun c => (readName (c.skip 1)).map fun (name, c) => (make name, c)

def fetchBlockScalar (l : Layout) (isLiteral : Bool) : Except Flaw Layout := do
  let l ← l.dropKey
  let (t, c) ← readBlock isLiteral l.indent l.cursor
  pure ({ l with keyAllowed := true, cursor := c }.push t)

def fetchPlain (l : Layout) : Except Flaw Layout := do
  let l ← l.noteKey
  let ((t, crossed), c) ← readPlain l.inFlow (l.indent + 1) l.cursor
  pure ({ l with keyAllowed := crossed, cursor := c }.push t)

def indicators : List Char := "-?:,[]\x7b\x7d#&*!|>'\"%@\x60".toList

def startsPlain (l : Layout) (ch : Char) : Bool :=
  let c := l.cursor
  (!isGap ch && !indicators.contains ch)
    || (ch == '-' && !(c.rest[1]?.map isBlank).getD false)
    || (!l.inFlow && (ch == '?' || ch == ':') && !c.gapAfter 1)

def fetchFrom (l : Layout) (ch : Char) : Except Flaw Layout :=
  let marks := l.inFlow || l.cursor.gapAfter 1
  if ch = '[' then l.fetchOpening .flowListStart
  else if ch = '\x7b' then l.fetchOpening .flowMapStart
  else if ch = ']' then l.fetchClosing .flowListEnd
  else if ch = '\x7d' then l.fetchClosing .flowMapEnd
  else if ch = ',' then l.fetchComma
  else if ch = '-' ∧ l.cursor.gapAfter 1 then l.fetchDash
  else if ch = '?' ∧ marks then l.fetchKey
  else if ch = ':' ∧ marks then l.fetchValue
  else if ch = '*' then l.fetchName .reference
  else if ch = '&' then l.fetchName .anchor
  else if ch = '!' then l.fetchNamed readTag
  else if ch = '|' ∧ !l.inFlow then l.fetchBlockScalar true
  else if ch = '>' ∧ !l.inFlow then l.fetchBlockScalar false
  else if ch = '\'' then l.fetchNamed (readQuoted true)
  else if ch = '\"' then l.fetchNamed (readQuoted false)
  else if l.startsPlain ch then l.fetchPlain
  else .error .badStart

def fetchNext (l : Layout) : Except Flaw Layout :=
  if !l.hasStarted then
    .ok ({ l with hasStarted := true, keyAllowed := true }.push .streamStart)
  else
    let l := l.toNextToken
    let l := l.closeBlocks l.cursor.column
    match l.cursor.next? with
    | none => l.fetchEnd
    | some ch =>
      if l.cursor.column = 0 ∧ ch = '%' then l.fetchDirective
      else if l.cursor.atMark '-' then l.fetchMark .documentStart
      else if l.cursor.atMark '.' then l.fetchMark .documentEnd
      else (l.fetchFrom ch).map skipLineComment

/-- Whether the first token of the queue has to wait. Two tokens are read ahead, and more while the
first one may be a key. -/
def isWaiting (l : Layout) : Except Flaw Bool :=
  if l.queue.length < 3 then .ok true
  else
    match l.keys.find? fun k => k.isPossible && k.number == l.taken with
    | none => .ok false
    | some k => isKey k l.cursor

def fill : (fuel : Nat) → Layout → Except Flaw Layout
  | 0, l => .ok l
  | fuel + 1, l => do
    if ← l.isWaiting then fill fuel (← l.fetchNext) else pure l

def peek (l : Layout) : Except Flaw (Token × Layout) := do
  let l ← fill (l.cursor.left + 4) l
  pure (l.queue.head?.getD .streamEnd, l)

def take (l : Layout) : Layout := { l with queue := l.queue.drop 1, taken := l.taken + 1 }

end Layout

end JvmAssembler.Yaml
