import JvmAssembler.Text

/-!
# Dates and times

Days of the Gregorian calendar and times of the day, each on its own or together, and with the
distance from universal time or without.
-/

set_option autoImplicit false

namespace JvmAssembler

structure Day where
  year : Nat
  month : Nat
  day : Nat
deriving DecidableEq

structure Clock where
  hour : Nat
  minute : Nat
  second : Nat
  /-- The digits of the part of a second, nine at most. -/
  fraction : Text
deriving DecidableEq

/-- A day, a time, or both. -/
inductive Moment where
  | day (d : Day)
  | clock (c : Clock)
  /-- A day and a time that may be anywhere. -/
  | floating (d : Day) (c : Clock)
  /-- A day and a time so many seconds ahead of universal time. -/
  | fixed (d : Day) (c : Clock) (offset : Int)
deriving DecidableEq

namespace Moment

def padded (width n : Nat) : Text :=
  let digits := Text.decimal n
  List.replicate (width - digits.length) 0x30 ++ digits

def isLeap (year : Nat) : Bool := year % 4 == 0 && (year % 100 != 0 || year % 400 == 0)

def daysIn (year month : Nat) : Nat :=
  if month = 2 then (if isLeap year then 29 else 28)
  else if month = 4 ∨ month = 6 ∨ month = 9 ∨ month = 11 then 30
  else 31

end Moment

namespace Day

def isReal (d : Day) : Bool :=
  1 ≤ d.month && d.month ≤ 12 && 1 ≤ d.day && d.day ≤ Moment.daysIn d.year d.month

def next (d : Day) : Day :=
  if d.day < Moment.daysIn d.year d.month then { d with day := d.day + 1 }
  else if d.month < 12 then ⟨d.year, d.month + 1, 1⟩
  else ⟨d.year + 1, 1, 1⟩

def text (d : Day) : Text :=
  .concat [Moment.padded 4 d.year, "-", Moment.padded 2 d.month, "-", Moment.padded 2 d.day]

end Day

namespace Clock

def midnight : Clock := ⟨0, 0, 0, []⟩

def isReal (c : Clock) : Bool := c.hour < 24 && c.minute < 60 && c.second < 60

def maxFraction : Nat := 9

/-- The same time without zeros at the end of the part of a second. -/
def stripped (c : Clock) : Clock :=
  { c with fraction := (c.fraction.reverse.dropWhile (· = 0x30)).reverse }

def text (c : Clock) : Text :=
  .concat
    [Moment.padded 2 c.hour, ":", Moment.padded 2 c.minute, ":", Moment.padded 2 c.second,
     if c.fraction = [] then [] else 0x2E :: c.fraction]

end Clock

namespace Moment

/-- A day and a time that may be one second past its minute. -/
def normal (d : Day) (c : Clock) (offset : Int) : Moment :=
  if c.second < 60 then .fixed d c offset
  else if c.minute < 59 then .fixed d { c with minute := c.minute + 1, second := 0 } offset
  else if c.hour < 23 then .fixed d { c with hour := c.hour + 1, minute := 0, second := 0 } offset
  else .fixed d.next { c with hour := 0, minute := 0, second := 0 } offset

def offsetText (offset : Int) : Text :=
  let minutes := offset.natAbs / 60
  .concat [if offset < 0 then "-" else "+", padded 2 (minutes / 60), padded 2 (minutes % 60)]

/-- A moment as text. Zones have no names except for universal time. -/
def text : Moment → Text
  | .day d => d.text
  | .clock c => c.text
  | .floating d c => .concat [d.text, "T", c.text]
  | .fixed d c offset =>
    .concat [d.text, " ", c.stripped.text, " ", offsetText offset, " ",
      if offset = 0 then "UTC" else offsetText offset]

end Moment

end JvmAssembler
