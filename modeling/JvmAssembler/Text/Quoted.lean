import JvmAssembler.Text.Printable
import JvmAssembler.Text.Utf8

/-!
# Quoted text

Text between quotation marks, as messages and listings show it. Printable characters stand for
themselves; everything else is written with a backslash, so a quoted text is one line.
-/

set_option autoImplicit false

namespace JvmAssembler.Quoted

open Printable

/-- The letter that names a control character after a backslash, for the seven that have one. -/
def escapeLetter? (point : Nat) : Option UInt8 :=
  match point with
  | 0x07 => some 0x61
  | 0x08 => some 0x62
  | 0x0C => some 0x66
  | 0x0A => some 0x6E
  | 0x0D => some 0x72
  | 0x09 => some 0x74
  | 0x0B => some 0x76
  | _ => none

def escapeChar (mark : Char) (c : Char) : Text :=
  let point := c.toNat
  if c = mark ∨ c = '\x5c' then 0x5C :: Utf8.encodeChar c
  else if isPrintable c then Utf8.encodeChar c
  else match escapeLetter? point with
    | some letter => [0x5C, letter]
    | none =>
      if point < 0x20 ∨ point = 0x7F then 0x5C :: 0x78 :: Text.hex 2 point
      else if point < 0x10000 then 0x5C :: 0x75 :: Text.hex 4 point
      else 0x5C :: 0x55 :: Text.hex 8 point

/-- A rune inside double quotation marks; a stray byte is written in hexadecimal. -/
def escapeRune : Utf8.Rune → Text
  | .char c => escapeChar '\x22' c
  | .stray b => 0x5C :: 0x78 :: Text.hex 2 b.toNat

def quoteRunes (rs : List Utf8.Rune) : Text := 0x22 :: (rs.flatMap escapeRune ++ [0x22])

def quote (t : Text) : Text := quoteRunes (Utf8.runes t)

/-- The first runes of a text, at most `limit`, between double quotation marks. -/
def quoteFront (limit : Nat) (t : Text) : Text := quoteRunes ((Utf8.runes t).take limit)

/-- The character whose code point is a byte's value, between apostrophes. -/
def quoteByte (b : UInt8) : Text :=
  0x27 :: (escapeChar '\x27' (Char.ofNat b.toNat) ++ [0x27])

end JvmAssembler.Quoted
