import JvmAssembler.Moment
import JvmAssembler.Text.Literal

/-!
# Timestamps of YAML

A day, or a day and a time: `2001-12-14`, `2001-12-14t21:59:43.1-05:00`, `2001-12-14 21:59:43`.
All numbers but the year may have one digit or two.
-/

set_option autoImplicit false

namespace JvmAssembler.Yaml.Timestamp

def number (digits : Text) : Nat := digits.foldl (fun n b => n * 10 + (b.toNat - 0x30)) 0

def short? : Text → Option (Nat × Text)
  | a :: b :: rest =>
    if Literal.isDigit a ∧ Literal.isDigit b then some (number [a, b], rest)
    else if Literal.isDigit a then some (number [a], b :: rest)
    else none
  | [a] => if Literal.isDigit a then some (number [a], []) else none
  | [] => none

def after? (front : UInt8) : Text → Option Text
  | b :: rest => if b = front then some rest else none
  | [] => none

def day? (t : Text) : Option (Day × Text) := do
  let year := t.take 4
  if year.length ≠ 4 ∨ !year.all Literal.isDigit then none
  let (month, rest) ← short? (← after? 0x2D (t.drop 4))
  let (day, rest) ← short? (← after? 0x2D rest)
  let d : Day := ⟨number year, month, day⟩
  if d.isReal then pure (d, rest) else none

/-- The part of a second in front, after a point or a comma, and the rest. It may be missing. -/
def fraction : Text → Text × Text
  | mark :: rest =>
    let digits := rest.takeWhile Literal.isDigit
    if (mark = 0x2E ∨ mark = 0x2C) ∧ digits ≠ [] then
      (digits.take Clock.maxFraction, rest.drop digits.length)
    else ([], mark :: rest)
  | [] => ([], [])

def clock? (t : Text) : Option (Clock × Text) := do
  let (hour, rest) ← short? t
  let (minute, rest) ← short? (← after? 0x3A rest)
  let (second, rest) ← short? (← after? 0x3A rest)
  let (fraction, rest) := fraction rest
  let c : Clock := ⟨hour, minute, second, fraction⟩
  if c.isReal then pure (c, rest) else none

def offset? : Text → Option Int
  | [0x5A] => some 0
  | [sign, h₁, h₂, 0x3A, m₁, m₂] =>
    let hours := number [h₁, h₂]
    let minutes := number [m₁, m₂]
    let areDigits := [h₁, h₂, m₁, m₂].all Literal.isDigit
    if !areDigits ∨ 24 < hours ∨ 60 < minutes then none
    else
      let seconds : Int := (hours * 60 + minutes) * 60
      if sign = 0x2B then some seconds else if sign = 0x2D then some (-seconds) else none
  | _ => none

/-- What follows the day: nothing, a time after a letter T and a zone, or a time after spaces. -/
def read? (t : Text) : Option Moment := do
  let (d, rest) ← day? t
  match rest with
  | [] => pure (.fixed d Clock.midnight 0)
  | mark :: rest =>
    if mark = 0x54 ∨ mark = 0x74 then
      let (c, zone) ← clock? rest
      pure (.fixed d c (← offset? zone))
    else if mark = 0x20 then
      let (c, rest) ← clock? (rest.dropWhile (· = 0x20))
      if rest = [] then pure (.fixed d c 0) else none
    else none

end JvmAssembler.Yaml.Timestamp
