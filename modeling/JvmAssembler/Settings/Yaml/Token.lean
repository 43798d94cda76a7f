import JvmAssembler.Settings.Yaml.Cursor

/-!
# Tokens of YAML

The pieces that a file consists of, and how names, tags, directives and scalars are read. Where
collections begin and end is decided elsewhere.
-/

set_option autoImplicit false

namespace JvmAssembler.Yaml

inductive Token where
  | streamStart
  | streamEnd
  | version (major minor : Nat)
  | tagDirective (handle uri : Text)
  | documentStart
  | documentEnd
  | listStart
  | mapStart
  | blockEnd
  | flowListStart
  | flowListEnd
  | flowMapStart
  | flowMapEnd
  | blockEntry
  | flowEntry
  | key
  | value
  | reference (name : Text)
  | anchor (name : Text)
  | tag (handle suffix : Text)
  | scalar (value : Text) (isPlain : Bool)
deriving DecidableEq

/-! ### Anchors -/

def readName (c : Cursor) : Except Flaw (Text × Cursor) :=
  let (name, c) := c.takeWhile isWord
  let ends := c.gapAfter 0 || c.nextIs ("?:,]\x7d%@\x60".toList.contains ·)
  if name = [] ∨ !ends then .error .anchor else .ok (Utf8.encode name, c)

/-! ### Tags -/

def isUriChar (c : Char) : Bool := isWord c || ";/?:@&=+$.,!~*'()[]%".toList.contains c

def hexValue? (c : Char) : Option Nat :=
  if c.isDigit then some (c.toNat - 0x30)
  else if 'a' ≤ c ∧ c ≤ 'f' then some (c.toNat - 0x61 + 10)
  else if 'A' ≤ c ∧ c ≤ 'F' then some (c.toNat - 0x41 + 10)
  else none

def hexNumber? (cs : List Char) : Option Nat :=
  cs.foldl (fun n c => n.bind fun n => (hexValue? c).map fun d => n * 16 + d) (some 0)

def escapedByte? : List Char → Option Nat
  | '%' :: a :: b :: _ => hexNumber? [a, b]
  | _ => none

/-- The number of bytes of a character by its first byte. -/
def widthOf (byte : Nat) : Nat :=
  if byte < 0x80 then 1
  else if byte < 0xC0 then 0
  else if byte < 0xE0 then 2
  else if byte < 0xF0 then 3
  else if byte < 0xF8 then 4
  else 0

def readEscapedTail : (count : Nat) → (found : Text) → Cursor → Except Flaw (Text × Cursor)
  | 0, found, c => .ok (found.reverse, c)
  | count + 1, found, c =>
    match escapedByte? c.rest with
    | none => .error .tag
    | some byte =>
      if 0x80 ≤ byte ∧ byte < 0xC0 then readEscapedTail count (byte.toUInt8 :: found) (c.skip 3)
      else .error .tag

def readEscaped (c : Cursor) : Except Flaw (Text × Cursor) :=
  match escapedByte? c.rest with
  | none => .error .tag
  | some byte =>
    match widthOf byte with
    | 0 => .error .tag
    | width + 1 => readEscapedTail width [byte.toUInt8] (c.skip 3)

/-- Reads the address of a tag; each step reads a character. -/
def readUriFrom : (fuel : Nat) → (found : Text) → Cursor → Except Flaw (Text × Cursor)
  | 0, found, c => .ok (found, c)
  | fuel + 1, found, c =>
    match c.next? with
    | some '%' =>
      match readEscaped c with
      | .error e => .error e
      | .ok (bytes, c) => readUriFrom fuel (found ++ bytes) c
    | some ch =>
      if isUriChar ch then readUriFrom fuel (found ++ Utf8.encodeChar ch) (c.skip 1)
      else .ok (found, c)
    | none => .ok (found, c)

def readUri (c : Cursor) : Except Flaw (Text × Cursor) := readUriFrom c.left [] c

def readFullUri (c : Cursor) : Except Flaw (Text × Cursor) :=
  match readUri c with
  | .ok ([], _) => .error .tag
  | result => result

/-- Reads the handle of a tag: an exclamation mark, or a name between two of them. Without the
second mark the name belongs to what follows. -/
def readHandle (c : Cursor) : Except Flaw (Text × Cursor) :=
  if !c.nextIs (· == '!') then .error .tag
  else
    let (name, after) := (c.skip 1).takeWhile isWord
    if after.nextIs (· == '!') then .ok (Utf8.encode ('!' :: name ++ ['!']), after.skip 1)
    else .ok (Utf8.encode ('!' :: name), after)

def isFullHandle (handle : Text) : Bool := 1 < handle.length && handle.getLast? == some 0x21

def readTag (c : Cursor) : Except Flaw (Token × Cursor) := do
  let (token, c) ←
    if c.rest[1]? = some '<' then
      let (uri, c) ← readFullUri (c.skip 2)
      if c.nextIs (· == '>') then pure (Token.tag [] uri, c.skip 1) else throw .tag
    else
      let (handle, c) ← readHandle c
      if isFullHandle handle then
        let (uri, c) ← readFullUri c
        pure (Token.tag handle uri, c)
      else
        let (uri, c) ← readUri c
        let suffix := handle.drop 1 ++ uri
        pure (if suffix = [] then Token.tag [] "!" else Token.tag "!" suffix, c)
  if c.gapAfter 0 then pure (token, c) else throw .tag

/-! ### Directives -/

def readVersionNumber (c : Cursor) : Except Flaw (Nat × Cursor) :=
  let (digits, c) := c.takeWhile Char.isDigit
  if digits = [] ∨ 2 < digits.length then .error .directive
  else .ok (digits.foldl (fun n d => n * 10 + (d.toNat - 0x30)) 0, c)

def readVersion (c : Cursor) : Except Flaw (Token × Cursor) := do
  let (major, c) ← readVersionNumber (c.skipWhile isBlank)
  if !c.nextIs (· == '.') then throw .directive
  let (minor, c) ← readVersionNumber (c.skip 1)
  pure (.version major minor, c)

def readTagDirective (c : Cursor) : Except Flaw (Token × Cursor) := do
  let (handle, c) ← readHandle (c.skipWhile isBlank)
  if !isFullHandle handle ∧ handle ≠ Text.ofString "!" ∨ !c.nextIs isBlank then throw .directive
  let (uri, c) ← readFullUri (c.skipWhile isBlank)
  if c.gapAfter 0 then pure (.tagDirective handle uri, c) else throw .directive

def skipComment (c : Cursor) : Cursor :=
  let c := c.skipWhile isBlank
  if c.nextIs (· == '#') then c.skipLine else c

def readDirective (c : Cursor) : Except Flaw (Token × Cursor) := do
  let (name, c) := (c.skip 1).takeWhile isWord
  if !c.gapAfter 0 then throw .directive
  let (token, c) ←
    if name = "YAML".toList then readVersion c
    else if name = "TAG".toList then readTagDirective c
    else throw .directive
  let c := skipComment c
  if c.isLineEnd then pure (token, c.skipBreak) else throw .directive

/-! ### Scalars over several lines -/

/-- What stands between two words of a scalar. -/
structure Between where
  /-- The blanks, as long as no line has ended. -/
  blanks : List Char := []
  first : List Char := []
  others : List Char := []
  /-- Whether a line has ended. -/
  crossed : Bool := false

/-- What is left of it: a single line break becomes a space, and several lose the first. -/
def Between.folded (b : Between) : List Char :=
  if !b.crossed then b.blanks
  else if b.first.head? = some '\n' then if b.others = [] then [' '] else b.others
  else b.first ++ b.others

def Between.addBreak (b : Between) (kept : List Char) : Between :=
  if b.crossed then { b with others := b.others ++ kept }
  else { b with blanks := [], first := kept, crossed := true }

/-- Reads what stands between two words. At the start of a line no tab may stand before the least
column. -/
def readBetween (leastColumn : Int) :
    (fuel : Nat) → Between → Cursor → Except Flaw (Between × Cursor)
  | 0, b, c => .ok (b, c)
  | fuel + 1, b, c =>
    match c.next? with
    | none => .ok (b, c)
    | some ch =>
      if isBlank ch then
        if b.crossed ∧ c.column < leastColumn ∧ ch = '\t' then .error .tab
        else
          let b := if b.crossed then b else { b with blanks := b.blanks ++ [ch] }
          readBetween leastColumn fuel b (c.skip 1)
      else if isBreak ch then
        let (kept, c) := c.readBreak
        readBetween leastColumn fuel (b.addBreak kept) c
      else .ok (b, c)

/-! ### Plain scalars -/

/-- Whether a word of a plain scalar ends before a character, given what follows it. -/
def endsWord (inFlow : Bool) (ch : Char) (rest : List Char) : Bool :=
  isGap ch || (ch == ':' && (rest.head?.map isGap).getD true)
    || (inFlow && ",?[]\x7b\x7d".toList.contains ch)

def wordLength (inFlow : Bool) (count : Nat) : List Char → Nat
  | [] => count
  | ch :: rest => if endsWord inFlow ch rest then count else wordLength inFlow (count + 1) rest

/-- Reads a plain scalar from a word on, newest character first. The result tells whether a line has
ended after it. -/
def readPlainFrom (inFlow : Bool) (leastColumn : Int) :
    (fuel : Nat) → (found : List Char) → Between → Cursor →
    Except Flaw ((List Char × Bool) × Cursor)
  | 0, found, b, c => .ok ((found, b.crossed), c)
  | fuel + 1, found, b, c =>
    if c.atDocumentMark ∨ c.next? = some '#' then .ok ((found, b.crossed), c)
    else
      let length := wordLength inFlow 0 c.rest
      let word := c.rest.take length
      let (found, b) :=
        if word = [] then (found, b) else (word.reverse ++ (b.folded.reverse ++ found), {})
      let c := c.skip length
      if !c.nextIs isGap then .ok ((found, b.crossed), c)
      else
        match readBetween leastColumn (c.left + 1) b c with
        | .error e => .error e
        | .ok (b, c) =>
          if !inFlow ∧ c.column < leastColumn then .ok ((found, b.crossed), c)
          else readPlainFrom inFlow leastColumn fuel found b c

/-- Reads a plain scalar, and whether a line has ended after it. Outside of brackets it goes on as
long as its lines are indented. -/
def readPlain (inFlow : Bool) (leastColumn : Int) (c : Cursor) :
    Except Flaw ((Token × Bool) × Cursor) := do
  let ((found, crossed), c) ← readPlainFrom inFlow leastColumn (c.left + 1) [] {} c
  pure ((.scalar (Utf8.encode found.reverse) true, crossed), c)

/-! ### Quoted scalars -/

def escapes : List (Char × Nat) :=
  [('0', 0x00), ('a', 0x07), ('b', 0x08), ('t', 0x09), ('\t', 0x09), ('n', 0x0A), ('v', 0x0B),
   ('f', 0x0C), ('r', 0x0D), ('e', 0x1B), (' ', 0x20), ('\"', 0x22), ('\'', 0x27), ('\\', 0x5C),
   ('N', 0x85), ('_', 0xA0), ('L', 0x2028), ('P', 0x2029)]

def escapeWidth? (ch : Char) : Option Nat :=
  if ch = 'x' then some 2 else if ch = 'u' then some 4 else if ch = 'U' then some 8 else none

def readEscape (c : Cursor) : Except Flaw (Char × Cursor) :=
  match c.rest with
  | [] => .error .badEscape
  | ch :: rest =>
    match escapes.lookup ch, escapeWidth? ch with
    | some point, _ => .ok (Char.ofNat point, c.skip 1)
    | none, some width =>
      let digits := rest.take width
      match hexNumber? digits with
      | some point =>
        if digits.length = width ∧ point.isValidChar then .ok (Char.ofNat point, c.skip (width + 1))
        else .error .badEscape
      | none => .error .badEscape
    | none, none => .error .badEscape

/-- Reads a word of a quoted scalar: up to the quote, a gap, or a line break after a backslash. The
result tells whether there is such a line break; it is read. -/
def readQuotedWord (isSingle : Bool) :
    (fuel : Nat) → (found : List Char) → Cursor → Except Flaw ((List Char × Bool) × Cursor)
  | 0, found, c => .ok ((found.reverse, false), c)
  | fuel + 1, found, c =>
    match c.rest with
    | [] => .ok ((found.reverse, false), c)
    | ch :: rest =>
      if isGap ch then .ok ((found.reverse, false), c)
      else if isSingle then
        if ch ≠ '\'' then readQuotedWord isSingle fuel (ch :: found) (c.skip 1)
        else if rest.head? = some '\'' then readQuotedWord isSingle fuel (ch :: found) (c.skip 2)
        else .ok ((found.reverse, false), c)
      else if ch = '\"' then .ok ((found.reverse, false), c)
      else if ch ≠ '\\' then readQuotedWord isSingle fuel (ch :: found) (c.skip 1)
      else if (rest.head?.map isBreak).getD false then
        .ok ((found.reverse, true), (c.skip 1).skipBreak)
      else
        match readEscape (c.skip 1) with
        | .error e => .error e
        | .ok (ch, c) => readQuotedWord isSingle fuel (ch :: found) c

/-- Reads a quoted scalar from a word on, up to and with its quote. What was found before is newest
first. -/
def readQuotedFrom (isSingle : Bool) :
    (fuel : Nat) → (found : List Char) → Cursor → Except Flaw (List Char × Cursor)
  | 0, _, _ => .error .openQuote
  | fuel + 1, found, c =>
    if c.atDocumentMark then .error .quotedDocument
    else if c.rest = [] then .error .openQuote
    else
      match readQuotedWord isSingle (c.left + 1) [] c with
      | .error e => .error e
      | .ok ((word, crossed), c) =>
        if c.nextIs (· == if isSingle then '\'' else '\"') then
          .ok ((word.reverse ++ found).reverse, c.skip 1)
        else
          match readBetween 0 (c.left + 1) { crossed } c with
          | .error e => .error e
          | .ok (b, c) =>
            readQuotedFrom isSingle fuel (b.folded.reverse ++ (word.reverse ++ found)) c

def readQuoted (isSingle : Bool) (c : Cursor) : Except Flaw (Token × Cursor) := do
  let (found, c) ← readQuotedFrom isSingle (c.left + 1) [] (c.skip 1)
  pure (.scalar (Utf8.encode found) false, c)

/-! ### Block scalars -/

/-- What happens to the line breaks at the end of a block scalar. -/
inductive Chomping where
  /-- All are dropped. -/
  | strip
  /-- One is kept. -/
  | clip
  /-- All are kept. -/
  | keep
deriving DecidableEq

def readChomping (c : Cursor) : Chomping × Cursor :=
  match c.next? with
  | some '+' => (.keep, c.skip 1)
  | some '-' => (.strip, c.skip 1)
  | _ => (.clip, c)

def readIndent (c : Cursor) : Except Flaw ((Option Nat) × Cursor) :=
  match c.next? with
  | some ch =>
    if ch = '0' then .error .scalarHeader
    else if ch.isDigit then .ok (some (ch.toNat - 0x30), c.skip 1)
    else .ok (none, c)
  | none => .ok (none, c)

def readHeader (c : Cursor) : Except Flaw ((Chomping × Option Nat) × Cursor) := do
  if c.nextIs fun ch => ch == '+' || ch == '-' then
    let (chomping, c) := readChomping c
    let (indent, c) ← readIndent c
    pure ((chomping, indent), c)
  else
    let (indent, c) ← readIndent c
    let (chomping, c) := if indent.isSome then readChomping c else (.clip, c)
    pure ((chomping, indent), c)

/-- Reads the empty lines and the indentation before a line, and the widest indentation. As long as
no indentation is known, all spaces belong to it. -/
def readIndentation (indent : Option Nat) :
    (fuel : Nat) → (widest : Nat) → (breaks : List Char) → Cursor →
    Except Flaw ((Nat × List Char) × Cursor)
  | 0, widest, breaks, c => .ok ((widest, breaks), c)
  | fuel + 1, widest, breaks, c =>
    let spaces := (c.rest.takeWhile (· = ' ')).length
    let c := c.skip (match indent with
      | some n => min spaces (n - c.column)
      | none => spaces)
    let widest := max widest c.column
    let isOpen : Bool := match indent with
      | some n => c.column < n
      | none => true
    if isOpen ∧ c.next? = some '\t' then .error .scalarIndent
    else if c.nextIs isBreak then
      let (kept, c) := c.readBreak
      readIndentation indent fuel widest (breaks ++ kept) c
    else .ok ((widest, breaks), c)

structure BlockText where
  /-- The lines, newest character first. -/
  found : List Char := []
  lastBreak : List Char := []
  breaks : List Char := []
  /-- Whether the last line starts with a blank, so that it is not folded. -/
  wasBlank : Bool := false

/-- What stands between the lines so far and a line that comes next. -/
def BlockText.between (b : BlockText) (isLiteral startsBlank : Bool) : List Char :=
  if !isLiteral ∧ b.lastBreak.head? = some '\n' ∧ !b.wasBlank ∧ !startsBlank then
    if b.breaks = [] then [' '] else b.breaks
  else b.lastBreak ++ b.breaks

def readBlockLines (isLiteral : Bool) (indent : Nat) : (fuel : Nat) → BlockText → Cursor →
    Except Flaw (BlockText × Cursor)
  | 0, b, c => .ok (b, c)
  | fuel + 1, b, c =>
    if c.column ≠ indent ∨ c.rest = [] then .ok (b, c)
    else
      let startsBlank := c.nextIs isBlank
      let (line, c) := c.takeWhile fun ch => !isBreak ch
      let (lastBreak, c) := c.readBreak
      match readIndentation (some indent) (c.left + 1) 0 [] c with
      | .error e => .error e
      | .ok ((_, breaks), c) =>
        let found := line.reverse ++ ((b.between isLiteral startsBlank).reverse ++ b.found)
        readBlockLines isLiteral indent fuel ⟨found, lastBreak, breaks, startsBlank⟩ c

def readBlock (isLiteral : Bool) (parent : Int) (c : Cursor) : Except Flaw (Token × Cursor) := do
  let ((chomping, increment), c) ← readHeader (c.skip 1)
  let c := skipComment c
  if !c.isLineEnd then throw .scalarHeader
  let c := c.skipBreak
  let given := increment.map fun n => if 0 ≤ parent then parent.toNat + n else n
  let ((widest, breaks), c) ← readIndentation given (c.left + 1) 0 [] c
  let indent := given.getD (max (max widest (parent + 1).toNat) 1)
  let (b, c) ← readBlockLines isLiteral indent (c.left + 1) { breaks } c
  let ending := match chomping with
    | .strip => []
    | .clip => b.lastBreak
    | .keep => b.lastBreak ++ b.breaks
  pure (.scalar (Utf8.encode (b.found.reverse ++ ending)) false, c)

end JvmAssembler.Yaml
