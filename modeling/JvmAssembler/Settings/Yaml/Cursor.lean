import JvmAssembler.Text.Utf8

/-!
# Characters of a YAML file

A file is UTF-8 or, when it starts with the mark for it, UTF-16. A cursor stands before the next
character and knows its line and column, which decide what belongs together.
-/

set_option autoImplicit false

namespace JvmAssembler.Yaml

inductive Flaw where
  | encoding
  | controlCharacter
  | noColon
  | entryPlace
  | keyPlace
  | valuePlace
  | tooDeep
  | badStart
  | directive
  | anchor
  | tag
  | tagHandle
  | scalarHeader
  | scalarIndent
  | quotedDocument
  | openQuote
  | badEscape
  | tab
  | noDocument
  | version
  | repeatedDirective
  | noNode
  | noEntry
  | noKey
  | noListEnd
  | noMapEnd
  | unknownAnchor
  | ownAnchor
  | manyAliases
  | repeatedKey
  | collectionKey
  | badMerge
  | badTag
  | base64
  | notMap
deriving DecidableEq

def Flaw.message : Flaw → Text
  | .encoding => "invalid leading UTF-8 octet"
  | .controlCharacter => "control characters are not allowed"
  | .noColon => "could not find expected ':'"
  | .entryPlace => "block sequence entries are not allowed in this context"
  | .keyPlace => "mapping keys are not allowed in this context"
  | .valuePlace => "mapping values are not allowed in this context"
  | .tooDeep => "exceeded max depth of 10000"
  | .badStart => "found character that cannot start any token"
  | .directive => "found unknown directive name"
  | .anchor => "did not find expected alphabetic or numeric character"
  | .tag => "did not find expected tag URI"
  | .tagHandle => "found undefined tag handle"
  | .scalarHeader => "did not find expected comment or line break"
  | .scalarIndent => "found a tab character where an indentation space is expected"
  | .quotedDocument => "found unexpected document indicator"
  | .openQuote => "found unexpected end of stream"
  | .badEscape => "found unknown escape character"
  | .tab => "found a tab character that violates indentation"
  | .noDocument => "did not find expected <document start>"
  | .version => "found incompatible YAML document"
  | .repeatedDirective => "found duplicate directive"
  | .noNode => "did not find expected node content"
  | .noEntry => "did not find expected '-' indicator"
  | .noKey => "did not find expected key"
  | .noListEnd => "did not find expected ',' or ']'"
  | .noMapEnd => "did not find expected ',' or '\x7d'"
  | .unknownAnchor => "unknown anchor referenced"
  | .ownAnchor => "anchor value contains itself"
  | .manyAliases => "document contains excessive aliasing"
  | .repeatedKey => "mapping key already defined"
  | .collectionKey => "invalid map key"
  | .badMerge => "map merge requires map or sequence of maps as the value"
  | .badTag => "cannot decode value as its tag"
  | .base64 => "!!binary value contains invalid base64 data"
  | .notMap => "cannot unmarshal into a map"

/-! ### Characters -/

def isBreak (c : Char) : Bool :=
  c == '\n' || c == '\r' || c == '\x85' || c == '\u2028' || c == '\u2029'

def isBlank (c : Char) : Bool := c == ' ' || c == '\t'

def isGap (c : Char) : Bool := isBlank c || isBreak c

def isWord (c : Char) : Bool := c.isAlphanum || c == '_' || c == '-'

def isAllowed (c : Char) : Bool :=
  let point := c.toNat
  point == 0x09 || point == 0x0A || point == 0x0D || (0x20 ≤ point && point ≤ 0x7E)
    || point == 0x85 || (0xA0 ≤ point && point ≤ 0xFFFD) || 0x10000 ≤ point

/-! ### Encodings -/

/-- The units of UTF-16, of two bytes each; `none` when a byte is left over. -/
def units (isLittle : Bool) (found : List Nat) : Bytes → Option (List Nat)
  | [] => some found.reverse
  | [_] => none
  | a :: b :: rest =>
    let unit := if isLittle then b.toNat * 256 + a.toNat else a.toNat * 256 + b.toNat
    units isLittle (unit :: found) rest

/-- The characters of UTF-16 units; two surrogates make one character. -/
def unitChars (found : List Char) : List Nat → Option (List Char)
  | [] => some found.reverse
  | high :: rest =>
    if high < 0xD800 ∨ 0xE000 ≤ high then unitChars (Char.ofNat high :: found) rest
    else
      match rest with
      | [] => none
      | low :: rest =>
        if high < 0xDC00 ∧ 0xDC00 ≤ low ∧ low < 0xE000 then
          let point := 0x10000 + (high - 0xD800) * 0x400 + (low - 0xDC00)
          unitChars (Char.ofNat point :: found) rest
        else none

def utf8Chars (t : Text) : Option (List Char) :=
  if Utf8.isValid t then some (Utf8.chars t) else none

/-- The characters of a file. A mark in front tells the encoding and is not part of the text. -/
def decode (file : Bytes) : Except Flaw (List Char) :=
  let decoded := match file with
    | 0xFF :: 0xFE :: rest => (units true [] rest).bind (unitChars [])
    | 0xFE :: 0xFF :: rest => (units false [] rest).bind (unitChars [])
    | 0xEF :: 0xBB :: 0xBF :: rest => utf8Chars rest
    | _ => utf8Chars file
  match decoded with
  | none => .error .encoding
  | some cs => if cs.all isAllowed then .ok cs else .error .controlCharacter

/-! ### The cursor -/

structure Cursor where
  /-- The characters from here on. -/
  rest : List Char
  size : Nat
  index : Nat := 0
  line : Nat := 0
  column : Nat := 0
  /-- Whether nothing but blanks stands between the last line break and here. -/
  isFresh : Bool := false

namespace Cursor

def start (cs : List Char) : Cursor := { rest := cs, size := cs.length }

def left (c : Cursor) : Nat := c.size - c.index

def next? (c : Cursor) : Option Char := c.rest.head?

def nextIs (c : Cursor) (test : Char → Bool) : Bool := c.next?.any test

/-- Whether a gap or the end of the file follows the first characters. -/
def gapAfter (c : Cursor) (count : Nat) : Bool := (c.rest[count]?.map isGap).getD true

def isLineEnd (c : Cursor) : Bool := (c.next?.map isBreak).getD true

def skip (c : Cursor) (count : Nat) : Cursor :=
  let passed := c.rest.take count
  { c with
    rest := c.rest.drop count
    index := c.index + passed.length
    column := c.column + passed.length
    isFresh := c.isFresh && passed.all isBlank }

/-- The characters in front of which a test holds, and the place behind them. They are no line
breaks. -/
def takeWhile (c : Cursor) (test : Char → Bool) : List Char × Cursor :=
  let found := c.rest.takeWhile test
  (found, c.skip found.length)

def skipWhile (c : Cursor) (test : Char → Bool) : Cursor := (c.takeWhile test).2

/-- A line break as a scalar keeps it, and the place behind it. -/
def readBreak (c : Cursor) : List Char × Cursor :=
  let after (kept : List Char) (rest : List Char) (count : Nat) : List Char × Cursor :=
    (kept,
      { c with rest, index := c.index + count, line := c.line + 1, column := 0, isFresh := true })
  match c.rest with
  | '\r' :: '\n' :: rest => after ['\n'] rest 2
  | b :: rest =>
    if b = '\u2028' ∨ b = '\u2029' then after [b] rest 1
    else if isBreak b then after ['\n'] rest 1
    else ([], c)
  | [] => ([], c)

def skipBreak (c : Cursor) : Cursor := c.readBreak.2

def skipLine (c : Cursor) : Cursor := c.skipWhile fun ch => !isBreak ch

def atMark (c : Cursor) (mark : Char) : Bool :=
  c.column == 0 && c.rest.take 3 == [mark, mark, mark] && c.gapAfter 3

def atDocumentMark (c : Cursor) : Bool := c.atMark '-' || c.atMark '.'

end Cursor

end JvmAssembler.Yaml
