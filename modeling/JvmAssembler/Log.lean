import JvmAssembler.Text.Utf8

/-!
# Log lines

What the assembler reports about its progress, one JSON object a line: the level, the fields in the
order in which they were given, and the message.
-/

set_option autoImplicit false

namespace JvmAssembler.Log

inductive Value where
  | text (value : Text)
  | texts (values : List Text)
  | number (value : Nat)
deriving DecidableEq

structure Event where
  fields : List (Text × Value)
  message : Text
deriving DecidableEq

/-- A character of a string value. Controls and DEL are escaped, and what is not UTF-8 is replaced
by the escape of U+FFFD. -/
def escapeRune : Utf8.Rune → Text
  | .stray _ => "\\ufffd"
  | .char c =>
    let point := c.toNat
    if point = 0x22 then "\\\""
    else if point = 0x5C then "\\\\"
    else if point = 0x08 then "\\b"
    else if point = 0x0C then "\\f"
    else if point = 0x0A then "\\n"
    else if point = 0x0D then "\\r"
    else if point = 0x09 then "\\t"
    else if point < 0x20 ∨ point = 0x7F then Text.ofString "\\u" ++ Text.hex 4 point
    else Utf8.encodeChar c

def quoted (t : Text) : Text := 0x22 :: ((Utf8.runes t).flatMap escapeRune ++ [0x22])

def Value.render : Value → Text
  | .text value => quoted value
  | .texts values => 0x5B :: (Text.join [0x2C] (values.map quoted) ++ [0x5D])
  | .number value => .decimal value

def Event.render (e : Event) : Text :=
  let level : Text × Value := ("level", .text "debug")
  let message : Text × Value := ("message", .text e.message)
  let fields := level :: (e.fields ++ [message])
  0x7B :: (Text.join [0x2C] (fields.map fun f => quoted f.1 ++ 0x3A :: f.2.render) ++ [0x7D])

end JvmAssembler.Log
