import JvmAssembler.Text.Quoted

/-!
# Descriptors

The types of fields and methods and the text that writes them. A field type is a base type, a
class, or an array of one of these with up to 255 dimensions; a method descriptor lists parameter
types and gives a return type.
-/

set_option autoImplicit false

namespace JvmAssembler

inductive BaseType where
  | byte | char | double | float | int | long | short | boolean
deriving DecidableEq

namespace BaseType

def letter : BaseType → UInt8
  | .byte => 0x42
  | .char => 0x43
  | .double => 0x44
  | .float => 0x46
  | .int => 0x49
  | .long => 0x4A
  | .short => 0x53
  | .boolean => 0x5A

def all : List BaseType := [.byte, .char, .double, .float, .int, .long, .short, .boolean]

def ofLetter? (b : UInt8) : Option BaseType := all.find? (·.letter == b)

def slots : BaseType → Nat
  | .double => 2
  | .long => 2
  | _ => 1

end BaseType

inductive ElementType where
  | base (type : BaseType)
  /-- A class, by internal name. -/
  | object (name : Text)
deriving DecidableEq

namespace ElementType

def text : ElementType → Text
  | .base type => [type.letter]
  | .object name => 0x4C :: (name ++ [0x3B])

end ElementType

/-- The type of a field or parameter: an element type under a number of array dimensions. -/
structure FieldType where
  dimensions : Nat
  element : ElementType
deriving DecidableEq

namespace FieldType

def text (t : FieldType) : Text := List.replicate t.dimensions 0x5B ++ t.element.text

/-- The first letter of the descriptor text. -/
def kind (t : FieldType) : UInt8 :=
  if t.dimensions = 0 then
    match t.element with
    | .base type => type.letter
    | .object _ => 0x4C
  else 0x5B

def slots (t : FieldType) : Nat :=
  if t.dimensions = 0 then
    match t.element with
    | .base type => type.slots
    | .object _ => 1
  else 1

end FieldType

inductive ReturnType where
  | void
  | value (type : FieldType)
deriving DecidableEq

namespace ReturnType

def text : ReturnType → Text
  | .void => [0x56]
  | .value type => type.text

def kind : ReturnType → UInt8
  | .void => 0x56
  | .value type => type.kind

def slots : ReturnType → Nat
  | .void => 0
  | .value type => type.slots

end ReturnType

structure MethodType where
  parameters : List FieldType
  result : ReturnType
deriving DecidableEq

namespace MethodType

def text (m : MethodType) : Text :=
  0x28 :: (m.parameters.flatMap FieldType.text ++ 0x29 :: m.result.text)

def argumentSlots (m : MethodType) : Nat :=
  m.parameters.foldr (fun p slots => p.slots + slots) 0

end MethodType

/-- Why a text is not a descriptor. Offsets count bytes from its start. -/
inductive DescriptorProblem where
  | trailingInField
  | trailingInMethod
  | missingOpen
  | missingClose
  | unexpectedEnd
  | misplacedVoid
  | unterminatedName (offset : Nat)
  | tooManyDimensions
  | unexpected (byte : UInt8) (offset : Nat)
deriving DecidableEq

structure DescriptorError where
  descriptor : Text
  problem : DescriptorProblem
deriving DecidableEq

def DescriptorError.message (e : DescriptorError) : Text :=
  let quoted := Quoted.quote e.descriptor
  match e.problem with
  | .trailingInField => .concat ["invalid field descriptor ", quoted, ": trailing characters"]
  | .trailingInMethod => .concat ["invalid method descriptor ", quoted, ": trailing characters"]
  | .missingOpen => .concat ["invalid method descriptor ", quoted, ": missing '('"]
  | .missingClose => .concat ["invalid method descriptor ", quoted, ": missing ')'"]
  | .unexpectedEnd => .concat ["invalid descriptor ", quoted, ": unexpected end"]
  | .misplacedVoid =>
    .concat ["invalid descriptor ", quoted, ": void is only valid as a return type"]
  | .unterminatedName offset =>
    .concat ["invalid descriptor ", quoted, ": unterminated class name at ", .decimal offset]
  | .tooManyDimensions =>
    .concat ["invalid descriptor ", quoted, ": more than 255 array dimensions"]
  | .unexpected byte offset =>
    .concat ["invalid descriptor ", quoted, ": unexpected ", Quoted.quoteByte byte, " at ",
      .decimal offset]

namespace Descriptor

def maxDimensions : Nat := 255

/-- Reads a type that is not an array at an offset, and what follows it. -/
def readElement (offset : Nat) : Text → Except DescriptorProblem (ElementType × Text)
  | [] => .error .unexpectedEnd
  | b :: rest =>
    match BaseType.ofLetter? b with
    | some type => .ok (.base type, rest)
    | none =>
      if b = 0x56 then .error .misplacedVoid
      else if b = 0x4C then
        let name := rest.takeWhile (· ≠ 0x3B)
        match name, rest.dropWhile (· ≠ 0x3B) with
        | _ :: _, _ :: rest => .ok (.object name, rest)
        | _, _ => .error (.unterminatedName offset)
      else .error (.unexpected b offset)

def readField (offset : Nat) (t : Text) : Except DescriptorProblem (FieldType × Text) := do
  let dimensions := (t.takeWhile (· = 0x5B)).length
  if maxDimensions < dimensions then throw .tooManyDimensions
  let (element, rest) ← readElement (offset + dimensions) (t.dropWhile (· = 0x5B))
  pure (⟨dimensions, element⟩, rest)

def readReturn (offset : Nat) (t : Text) : Except DescriptorProblem (ReturnType × Text) :=
  match t with
  | 0x56 :: rest => .ok (.void, rest)
  | _ => (readField offset t).map fun (type, rest) => (.value type, rest)

/-- Reads parameter types up to the closing parenthesis, at most `fuel` of them, behind those in
`found`, newest first. Returns the offset behind the parenthesis too. -/
def readParameters : (fuel : Nat) → (offset : Nat) → (found : List FieldType) → Text →
    Except DescriptorProblem (List FieldType × Nat × Text)
  | _, _, _, [] => .error .missingClose
  | 0, _, _, _ :: _ => .error .missingClose
  | fuel + 1, offset, found, b :: rest =>
    if b = 0x29 then .ok (found.reverse, offset + 1, rest)
    else
      match readField offset (b :: rest) with
      | .ok (type, rest) =>
        readParameters fuel (offset + type.text.length) (type :: found) rest
      | .error problem => .error problem

/-- Reads a method descriptor that makes up the whole text. -/
def readMethod : Text → Except DescriptorProblem MethodType
  | 0x28 :: t => do
    let (parameters, offset, rest) ← readParameters (t.length + 1) 1 [] t
    let (result, rest) ← readReturn offset rest
    if rest.isEmpty then pure ⟨parameters, result⟩ else throw .trailingInMethod
  | _ => .error .missingOpen

def parseField (t : Text) : Except DescriptorError FieldType :=
  match readField 0 t with
  | .ok (type, []) => .ok type
  | .ok (_, _ :: _) => .error ⟨t, .trailingInField⟩
  | .error problem => .error ⟨t, problem⟩

def parseMethod (t : Text) : Except DescriptorError MethodType :=
  match readMethod t with
  | .ok type => .ok type
  | .error problem => .error ⟨t, problem⟩

end Descriptor

end JvmAssembler
