import JvmAssembler.Settings.Value
import JvmAssembler.Text.Utf8

/-!
# Scalars of TOML

Strings in four kinds of quotes, integers in four bases, numbers with a fraction, and moments.
Every reader gives what it reads and the rest.
-/

set_option autoImplicit false

namespace JvmAssembler.Toml

open Settings (Value)

inductive Flaw where
  | badCharacter
  | openString
  | badEscape
  | badNumber
  | badMoment
  | badValue
  | badKey
  | badTable
  | badList
  | badLine
  | redefined (key : Text)
deriving DecidableEq

def Flaw.message : Flaw → Text
  | .badCharacter => "invalid character"
  | .openString => "string not terminated"
  | .badEscape => "invalid escaped character"
  | .badNumber => "invalid number"
  | .badMoment => "invalid date or time"
  | .badValue => "invalid value"
  | .badKey => "invalid character at start of key"
  | .badTable => "invalid table"
  | .badList => "array is incomplete"
  | .badLine => "expected newline"
  | .redefined key => .concat ["key ", key, " is already defined"]

/-! ### Characters -/

def isAllowed (c : Char) : Bool :=
  let point := c.toNat
  point == 0x09 || point == 0x0A || point == 0x0D || (0x20 ≤ point && point ≠ 0x7F)

def isClean (t : Text) : Bool :=
  Utf8.fold (fun ok r => ok && match r with
    | .char c => isAllowed c
    | .stray _ => false) true t

def clean (t : Text) : Except Flaw Text := if isClean t then .ok t else .error .badCharacter

/-- Whether every carriage return is followed by a line feed. -/
def hasFullBreaks : Text → Bool
  | [] => true
  | 0x0D :: 0x0A :: rest => hasFullBreaks rest
  | b :: rest => b != 0x0D && hasFullBreaks rest

/-! ### Strings -/

def escapes : List (UInt8 × UInt8) :=
  [(0x22, 0x22), (0x5C, 0x5C), (0x62, 0x08), (0x66, 0x0C), (0x6E, 0x0A), (0x72, 0x0D), (0x74, 0x09),
   (0x65, 0x1B)]

def escapeWidth? (b : UInt8) : Option Nat :=
  if b = 0x75 then some 4 else if b = 0x55 then some 8 else none

def escape (t : Text) : Except Flaw (Text × Text) :=
  match t with
  | [] => .error .badEscape
  | b :: rest =>
    match escapes.lookup b, escapeWidth? b with
    | some byte, _ => .ok ([byte], rest)
    | none, some width =>
      let digits := rest.take width
      if digits.length < width ∨ digits.contains Literal.underscore then .error .badEscape
      else
        match Literal.digits? 16 digits with
        | some point =>
          if point.isValidChar then .ok (Utf8.encodeChar (Char.ofNat point), rest.drop width)
          else .error .badEscape
        | none => .error .badEscape
    | none, none => .error .badEscape

def isBlank (b : UInt8) : Bool := b == 0x20 || b == 0x09

def isGap (b : UInt8) : Bool := isBlank b || b == 0x0A || b == 0x0D

/-- The rest after a backslash at the end of a line: it takes all gaps with it. -/
def joined? (t : Text) : Option Text :=
  match t.dropWhile isBlank with
  | 0x0D :: 0x0A :: rest => some (rest.dropWhile isGap)
  | 0x0A :: rest => some (rest.dropWhile isGap)
  | _ => none

def unescape (isLong : Bool) : (fuel : Nat) → (found : Text) → Text → Except Flaw Text
  | 0, found, _ | _, found, [] => .ok found
  | fuel + 1, found, b :: rest =>
    if b ≠ 0x5C then unescape isLong fuel (found ++ [b]) rest
    else
      match if isLong then joined? rest else none with
      | some rest => unescape isLong fuel found rest
      | none =>
        match escape rest with
        | .error e => .error e
        | .ok (bytes, rest) => unescape isLong fuel (found ++ bytes) rest

/-- The text up to a quote on the same line, newest byte first before, and the rest after the quote.
Where escapes are allowed, a byte after a backslash is no quote. -/
def upToQuote (quote : UInt8) (escaped : Bool) (found : Text) : Text → Except Flaw (Text × Text)
  | [] => .error .openString
  | 0x5C :: b :: rest =>
    if escaped then upToQuote quote escaped (b :: 0x5C :: found) rest
    else if b = quote then .ok ((0x5C :: found).reverse, rest)
    else upToQuote quote escaped (0x5C :: found) (b :: rest)
  | b :: rest =>
    if b = quote then .ok (found.reverse, rest)
    else if b = 0x0A ∨ b = 0x0D then .error .openString
    else upToQuote quote escaped (b :: found) rest

/-- The text up to three quotes, and the rest after them. Up to two more quotes belong to the
text. -/
def upToQuotes (quote : UInt8) (escaped : Bool) (found : Text) : Text → Except Flaw (Text × Text)
  | [] => .error .openString
  | 0x5C :: b :: rest =>
    if escaped then upToQuotes quote escaped (b :: 0x5C :: found) rest
    else upToQuotes quote escaped (0x5C :: found) (b :: rest)
  | b :: rest =>
    if b = quote ∧ rest.take 2 = [quote, quote] then
      let more := ((rest.drop 2).takeWhile (· = quote)).length
      if 2 < more then .error .openString
      else .ok (found.reverse ++ List.replicate more quote, rest.drop (2 + more))
    else upToQuotes quote escaped (b :: found) rest

def skipBreak : Text → Text
  | 0x0D :: 0x0A :: rest => rest
  | 0x0A :: rest => rest
  | t => t

def startsLong (t : Text) : Bool :=
  match t with
  | quote :: rest => rest.take 2 == [quote, quote]
  | [] => false

def shortString (t : Text) : Except Flaw (Text × Text) := do
  let quote := t.head?.getD 0
  let escaped := quote == 0x22
  let (body, rest) ← upToQuote quote escaped [] (t.drop 1)
  let body ← clean body
  let said ← if escaped then unescape false (body.length + 1) [] body else pure body
  pure (said, rest)

def longString (t : Text) : Except Flaw (Text × Text) := do
  let quote := t.head?.getD 0
  let escaped := quote == 0x22
  let (body, rest) ← upToQuotes quote escaped [] (t.drop 3)
  let body ← clean (skipBreak body)
  if !hasFullBreaks body then throw .badCharacter
  let said ← if escaped then unescape true (body.length + 1) [] body else pure body
  pure (said, rest)

/-! ### Numbers -/

/-- Whether underscores stand between other bytes, and never two of them together. -/
def underscoresFit (t : Text) : Bool :=
  t.head? != some Literal.underscore && t.getLast? != some Literal.underscore
    && !(t.zip (t.drop 1)).contains (Literal.underscore, Literal.underscore)

def withoutUnderscores (t : Text) : Text := t.filter (· ≠ Literal.underscore)

/-- Whether there are digits before others that start with 0. -/
def hasLeadingZero (t : Text) : Bool :=
  match (Decimal.spanSign t).2 with
  | 0x30 :: b :: _ => Literal.isDigit b
  | _ => false

def inBase (base : Nat) (digits : Text) : Except Flaw Value :=
  if digits = [] ∨ !underscoresFit digits then .error .badNumber
  else
    match Literal.digits? base digits with
    | some n => if n ≤ Int64.maxValue.toInt then .ok (.integer n) else .error .badNumber
    | none => .error .badNumber

def decimalInteger (t : Text) : Except Flaw Value :=
  let (isNegative, digits) := Decimal.spanSign t
  let plain := withoutUnderscores digits
  if !underscoresFit digits ∨ plain = [] ∨ hasLeadingZero plain then .error .badNumber
  else
    match Literal.digits? 10 plain with
    | some n =>
      let value : Int := if isNegative then -(n : Int) else n
      if Int64.minValue.toInt ≤ value ∧ value ≤ Int64.maxValue.toInt then .ok (.integer value)
      else .error .badNumber
    | none => .error .badNumber

/-- Whether a point and an exponent have no underscore beside them. -/
def marksFit (t : Text) : Bool :=
  !(t.zip (t.drop 1)).any fun (a, b) =>
    let isMark (b : UInt8) : Bool := b == 0x2E || Literal.lower b == 0x65
    (isMark a && b == Literal.underscore) || (a == Literal.underscore && isMark b)
      || ((a == 0x2B || a == 0x2D) && b == Literal.underscore)

/-- Whether every point stands between digits. -/
def pointsFit (t : Text) : Bool :=
  t.head? != some 0x2E && t.getLast? != some 0x2E
    && !(t.zip (t.drop 1)).any fun (a, b) =>
      (b == 0x2E && !Literal.isDigit a) || (a == 0x2E && !Literal.isDigit b)

def fractional (t : Text) : Except Flaw Value :=
  let plain := withoutUnderscores t
  if !underscoresFit t ∨ !marksFit t ∨ !pointsFit plain ∨ hasLeadingZero plain then
    .error .badNumber
  else
    match (Decimal.parse? plain).bind Double.ofDecimal? with
    | some d => .ok (.double d)
    | none => .error .badNumber

def base? (b : UInt8) : Option Nat :=
  if b = 0x78 then some 16 else if b = 0x6F then some 8 else if b = 0x62 then some 2 else none

def isBaseByte (base : Nat) (b : UInt8) : Bool :=
  b == Literal.underscore || (Literal.digitValue? b).any (· < base)

def isNumberByte (b : UInt8) : Bool :=
  Literal.isDigit b || b == 0x2B || b == 0x2D || b == Literal.underscore || b == 0x2E
    || Literal.lower b == 0x65

def namedNumbers : List (Text × Double) :=
  [("inf", .infinity false), ("+inf", .infinity false), ("-inf", .infinity true), ("nan", .nan),
   ("+nan", .nan), ("-nan", .nan)]

def decimalNumber (t : Text) : Except Flaw (Value × Text) :=
  let run := t.takeWhile isNumberByte
  let rest := t.drop run.length
  match namedNumbers.find? fun n => Text.startsWith n.1 t with
  | some (name, d) => .ok (.double d, t.drop name.length)
  | none =>
    if rest.head? = some 0x69 ∨ rest.head? = some 0x6E then .error .badNumber
    else do
      let isFractional := run.any fun b => b == 0x2E || Literal.lower b == 0x65
      let value ← if isFractional then fractional run else decimalInteger run
      pure (value, rest)

def number (t : Text) : Except Flaw (Value × Text) :=
  match t with
  | 0x30 :: mark :: _ :: _ =>
    if mark = 0x2E ∨ Literal.lower mark = 0x65 then decimalNumber t
    else
      match base? mark with
      | some base =>
        let digits := (t.drop 2).takeWhile (isBaseByte base)
        (inBase base digits).map fun value => (value, t.drop (2 + digits.length))
      | none => .ok (.integer 0, t.drop 1)
  | _ => decimalNumber t

/-! ### Moments -/

def digits? (count : Nat) (t : Text) : Option Nat :=
  if t.length = count ∧ t.all Literal.isDigit then
    some (t.foldl (fun n b => n * 10 + (b.toNat - 0x30)) 0)
  else none

def day? (t : Text) : Option Day := do
  if t.length ≠ 10 ∨ t[4]? ≠ some 0x2D ∨ t[7]? ≠ some 0x2D then none
  let d : Day :=
    ⟨← digits? 4 (t.take 4), ← digits? 2 ((t.drop 5).take 2), ← digits? 2 ((t.drop 8).take 2)⟩
  if d.isReal then pure d else none

/-- A time in front, and the rest. The last second of a day may be an extra one. -/
def clock? (t : Text) : Option (Clock × Text) := do
  if t[2]? ≠ some 0x3A ∨ t[5]? ≠ some 0x3A then none
  let hour ← digits? 2 (t.take 2)
  let minute ← digits? 2 ((t.drop 3).take 2)
  let second ← digits? 2 ((t.drop 6).take 2)
  if 23 < hour ∨ 59 < minute ∨ 60 < second then none
  match t.drop 8 with
  | 0x2E :: rest =>
    let digits := rest.takeWhile Literal.isDigit
    if digits = [] then none
    else
      let c : Clock := ⟨hour, minute, second, digits.take Clock.maxFraction⟩
      pure (c, rest.drop digits.length)
  | rest => pure (⟨hour, minute, second, []⟩, rest)

def offset? : Text → Option Int
  | [0x5A] | [0x7A] => some 0
  | [sign, h₁, h₂, 0x3A, m₁, m₂] =>
    match digits? 2 [h₁, h₂], digits? 2 [m₁, m₂] with
    | some hours, some minutes =>
      let seconds : Int := (hours * 60 + minutes) * 60
      if 23 < hours ∨ 59 < minutes then none
      else if sign = 0x2B then some seconds
      else if sign = 0x2D then some (-seconds)
      else none
    | _, _ => none
  | _ => none

def isSeparator (b : UInt8) : Bool := b == 0x54 || b == 0x74 || b == 0x20

/-- A day and a time. An extra second at the end of a minute is the first one of the next, where the
zone is known. -/
def dayAndClock? (t : Text) : Option Moment := do
  let d ← day? (t.take 10)
  if !(t[10]?.map isSeparator).getD false then none
  let (c, rest) ← clock? (t.drop 11)
  if rest = [] then pure (.floating d c)
  else
    let offset ← offset? rest
    pure (Moment.normal d c offset)

def isMomentByte (b : UInt8) : Bool :=
  Literal.isDigit b || b == 0x2D || b == 0x3A || b == 0x2E || b == 0x2B || b == 0x54 || b == 0x74
    || b == 0x5A || b == 0x7A

/-- The length of the moment in front. A space belongs to it once, if a digit follows. -/
def momentLength (seenSpace : Bool) (count : Nat) : Text → Nat
  | [] => count
  | 0x20 :: b :: rest =>
    if !seenSpace ∧ Literal.isDigit b then momentLength true (count + 2) rest else count
  | b :: rest => if isMomentByte b then momentLength seenSpace (count + 1) rest else count

def moment (t : Text) : Except Flaw (Value × Text) :=
  let written := t.take (momentLength false 0 t)
  let rest := t.drop written.length
  let read : Option Moment :=
    if written[2]? = some 0x3A then
      match clock? written with
      | some (c, []) => some (.clock c)
      | _ => none
    else if written.length = 10 then (day? written).map .day
    else dayAndClock? written
  match read with
  | some m => .ok (.moment m, rest)
  | none => .error .badMoment

def startsMoment (t : Text) : Bool :=
  let digits := (t.takeWhile Literal.isDigit).length
  (digits == 2 && t[2]? == some 0x3A) || (digits == 4 && t[4]? == some 0x2D)

end JvmAssembler.Toml
