import JvmAssembler.Settings.Value
import JvmAssembler.Text.Blank

/-!
# Settings as variables

A file of lines such as `export NAME=value`, as shells read them. A value may be quoted and then go
over several lines. In double quotes and without quotes, `$NAME` stands for the value of a variable:
of the environment, or else of an earlier line.
-/

set_option autoImplicit false

namespace JvmAssembler.Dotenv

open Settings (Value)

abbrev Variables := List (Text × Text)

/-! ### Lines -/

/-- The units of UTF-16; a byte that is left over becomes U+FFFD. -/
def units (isLittle : Bool) (found : List Nat) : Bytes → List Nat
  | [] => found.reverse
  | [_] => (0xFFFD :: found).reverse
  | a :: b :: rest =>
    let unit := if isLittle then b.toNat * 256 + a.toNat else a.toNat * 256 + b.toNat
    units isLittle (unit :: found) rest

/-- The characters of UTF-16 units. Half a character becomes U+FFFD. -/
def unitChars (found : List Char) : List Nat → List Char
  | [] => found.reverse
  | [unit] =>
    (if 0xD800 ≤ unit ∧ unit < 0xE000 then Utf8.replacement :: found
      else Char.ofNat unit :: found).reverse
  | high :: low :: rest =>
    if high < 0xD800 ∨ 0xE000 ≤ high then unitChars (Char.ofNat high :: found) (low :: rest)
    else if high < 0xDC00 ∧ 0xDC00 ≤ low ∧ low < 0xE000 then
      unitChars (Char.ofNat (0x10000 + (high - 0xD800) * 0x400 + (low - 0xDC00)) :: found) rest
    else unitChars (Utf8.replacement :: found) (low :: rest)

/-- The text of a file. A mark in front tells its encoding. -/
def decode : Bytes → Text
  | 0xFF :: 0xFE :: rest => Utf8.encode (unitChars [] (units true [] rest))
  | 0xFE :: 0xFF :: rest => Utf8.encode (unitChars [] (units false [] rest))
  | 0xEF :: 0xBB :: 0xBF :: rest => Utf8.encode (Utf8.chars rest)
  | file => file

/-- The lines of a text; each of the usual line ends counts. -/
def splitLines (found : List Text) (line : Text) : Text → List Text
  | [] => (line.reverse :: found).reverse
  | 0x0D :: 0x0A :: rest => splitLines (line.reverse :: found) [] rest
  | b :: rest =>
    if b = 0x0A ∨ b = 0x0D then splitLines (line.reverse :: found) [] rest
    else splitLines found (b :: line) rest

def firstIndex? (b : UInt8) (t : Text) : Option Nat := t.findIdx? (· == b)

def lastIndex? (b : UInt8) (t : Text) : Option Nat :=
  (t.reverse.findIdx? (· == b)).map fun n => t.length - 1 - n

/-- The quote that a line opens and does not close. -/
def openQuote? (line : Text) : Option UInt8 :=
  match (firstIndex? 0x3D line).orElse fun _ => firstIndex? 0x3A line with
  | none => none
  | some place =>
    if place = 0 ∨ line.length ≤ place + 1 then none
    else
      let value := Blank.trim (line.drop (place + 1))
      match value with
      | [] => none
      | quote :: rest =>
        if quote ≠ 0x22 ∧ quote ≠ 0x27 then none
        else
          match lastIndex? quote (Blank.trim rest) with
          | none => some quote
          | some n => if value[n]? = some 0x5C then some quote else none

def closesQuote (quote : UInt8) (t : Text) : Bool :=
  match lastIndex? quote t with
  | none => false
  | some n => n == 0 || t[n - 1]? != some 0x5C

/-- A line with the lines that its quote goes over, and the rest; `none` if the quote stays open. -/
def gather? (quote : UInt8) (line : Text) : List Text → Option (Text × List Text)
  | [] => none
  | next :: rest =>
    let line := line ++ 0x0A :: next
    if closesQuote quote next then some (line, rest) else gather? quote line rest

/-! ### Assignments -/

def isSpace (b : UInt8) : Bool := b == 0x20 || b == 0x09 || b == 0x0A || b == 0x0C || b == 0x0D

def isNameByte (b : UInt8) : Bool :=
  Literal.isDigit b || (0x61 ≤ Literal.lower b && Literal.lower b ≤ 0x7A) || b == 0x5F || b == 0x2E

/-- Whether nothing but white space and a comment follows. -/
def isEnding (t : Text) : Bool :=
  match t.dropWhile isSpace with
  | [] => true
  | b :: rest => b == 0x23 && (rest.dropWhile (· ≠ 0x0A)).all isSpace

/-- A value in quotes in front: up to the last quote after which the line may end. -/
def quotedPart? (t : Text) : Option Text :=
  match t with
  | [] => none
  | quote :: rest =>
    if quote ≠ 0x22 ∧ quote ≠ 0x27 then none
    else
      let lengths := (List.range rest.length).reverse.map (· + 2)
      (lengths.find? fun n => t[n - 1]? == some quote && isEnding (t.drop n)).map t.take

def plainPart? (t : Text) : Option Text :=
  let plain := t.takeWhile fun b => b ≠ 0x23 && b ≠ 0x0A
  if plain ≠ [] ∧ isEnding (t.drop plain.length) then some plain else none

def valuePart? (t : Text) : Option Text :=
  match quotedPart? t with
  | some part => some part
  | none =>
    match plainPart? t with
    | some part => some part
    | none => if isEnding t then some [] else none

/-- What follows a name: an equals sign, or a colon and white space. -/
def assigned? (t : Text) : Option Text :=
  match t.dropWhile isSpace with
  | 0x3D :: rest => valuePart? (rest.dropWhile isSpace)
  | _ =>
    match t with
    | 0x3A :: rest =>
      let spaces := (rest.takeWhile isSpace).length
      (List.range spaces).findSome? fun n => valuePart? (rest.drop (n + 1))
    | _ => none

def assignment? (t : Text) : Option (Text × Text) :=
  let name := t.takeWhile isNameByte
  if name = [] then none else (assigned? (t.drop name.length)).map fun value => (name, value)

def exportWord : Text := "export"

def line? (t : Text) : Option (Text × Text) :=
  let t := t.dropWhile isSpace
  let after := t.drop exportWord.length
  let exported :=
    if Text.startsWith exportWord t ∧ (after.head?.map isSpace).getD false then
      assignment? (after.dropWhile isSpace)
    else none
  match exported with
  | some found => some found
  | none => assignment? t

/-! ### Values -/

def replaceEscape (letter byte : UInt8) (found : Text) : Text → Text
  | [] => found.reverse
  | 0x5C :: b :: rest =>
    if b = letter then replaceEscape letter byte (byte :: found) rest
    else replaceEscape letter byte (0x5C :: found) (b :: rest)
  | b :: rest => replaceEscape letter byte (b :: found) rest

/-- A text without its backslashes, except for those before a dollar sign. -/
def unescape (found : Text) : Text → Text
  | [] => found.reverse
  | 0x5C :: b :: rest =>
    if b = 0x24 then unescape (0x5C :: found) (b :: rest) else unescape (b :: found) rest
  | b :: rest => unescape (b :: found) rest

def isVariableByte (b : UInt8) : Bool :=
  Literal.isDigit b || (0x41 ≤ b && b ≤ 0x5A) || b == 0x5F

/-- What a dollar sign stands for, and the rest after it. -/
def replaced (values : Text → Text) (t : Text) : Text × Text :=
  let (front, t) := match t with
    | 0x7B :: rest => (([0x7B] : Text), rest)
    | _ => ([], t)
  let name := t.takeWhile isVariableByte
  let rest := t.drop name.length
  let (back, rest) := match rest with
    | 0x7D :: rest => (([0x7D] : Text), rest)
    | _ => ([], rest)
  (if name = [] then 0x24 :: front ++ back else values name, rest)

/-- A dollar sign after a backslash with what belongs to it, and the rest. -/
def escapedVariable (t : Text) : Text × Text :=
  let (front, t) := match t with
    | 0x7B :: rest => (([0x7B] : Text), rest)
    | _ => ([], t)
  let name := t.takeWhile isVariableByte
  let rest := t.drop name.length
  match rest with
  | 0x7D :: rest => (0x24 :: front ++ name ++ [0x7D], rest)
  | _ => (0x24 :: front ++ name, rest)

/-- A text with variables replaced by their values. Every step reads at least a byte. -/
def expand (values : Text → Text) : (fuel : Nat) → (found : Text) → Text → Text
  | 0, found, _ | _, found, [] => found
  | fuel + 1, found, 0x5C :: 0x24 :: rest =>
    let (bytes, rest) := escapedVariable rest
    expand values fuel (found ++ bytes) rest
  | fuel + 1, found, b :: rest =>
    if b = 0x24 then
      let (bytes, rest) := replaced values rest
      expand values fuel (found ++ bytes) rest
    else expand values fuel (found ++ [b]) rest

def unquote (t : Text) : Text × Option UInt8 :=
  match t with
  | first :: second :: rest =>
    let inner := second :: rest
    if (first = 0x22 ∨ first = 0x27) ∧ inner.getLast? = some first then
      (inner.dropLast, some first)
    else (t, none)
  | _ => (t, none)

def valueOf (values : Text → Text) (written : Text) : Text :=
  let (inner, quote) := unquote (Blank.trim written)
  let inner :=
    if quote = some 0x22 then
      unescape [] (replaceEscape 0x72 0x0D [] (replaceEscape 0x6E 0x0A [] inner))
    else inner
  if quote = some 0x27 then inner else expand values (inner.length + 1) [] inner

/-! ### Files -/

/-- The value of a variable: that of the environment counts first. -/
def lookUp (exported found : Variables) (name : Text) : Text :=
  match exported.lookup name with
  | some value => value
  | none => (found.lookup name).getD []

/-- The variables of lines, newest first; `none` if a line is none. -/
def readLines (exported : Variables) :
    (fuel : Nat) → (found : Variables) → List Text → Option Variables
  | 0, found, _ | _, found, [] => some found
  | fuel + 1, found, first :: rest =>
    let line := Blank.trim first
    if line = [] ∨ line.head? = some 0x23 then readLines exported fuel found rest
    else
      let gathered := match openQuote? line with
        | some quote => gather? quote line rest
        | none => some (line, rest)
      match gathered with
      | none => none
      | some (line, rest) =>
        match line? line with
        | none => none
        | some (name, written) =>
          let value := valueOf (lookUp exported found) written
          readLines exported fuel ((name, value) :: found) rest

def read? (exported : Variables) (file : Bytes) : Option Settings.Fields :=
  let lines := splitLines [] [] (decode file)
  (readLines exported (lines.length + 1) [] lines).map fun found =>
    found.reverse.foldl (fun fields v => Settings.Fields.set fields v.1 (.text v.2)) []

end JvmAssembler.Dotenv
