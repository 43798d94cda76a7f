import JvmAssembler.Text.Quoted

/-!
# Symbols

The entries of a constant pool by value. A composite symbol carries the texts of the symbols it
refers to, so two equal symbols are the same entry wherever they were made.
-/

set_option autoImplicit false

namespace JvmAssembler

/-- The byte that says what kind of entry follows in a constant pool. -/
structure Tag where
  byte : UInt8
deriving DecidableEq

namespace Tag

def utf8 : Tag := ⟨1⟩
def integer : Tag := ⟨3⟩
def classRef : Tag := ⟨7⟩
def string : Tag := ⟨8⟩
def fieldRef : Tag := ⟨9⟩
def methodRef : Tag := ⟨10⟩
def nameAndType : Tag := ⟨12⟩

def named : List (Tag × Text) :=
  [(utf8, "Utf8"), (integer, "Integer"), (classRef, "Class"), (string, "String"),
   (fieldRef, "Fieldref"), (methodRef, "Methodref"), (nameAndType, "NameAndType")]

/-- The name of a tag; an unsupported one shows its number. -/
def text (t : Tag) : Text :=
  match named.lookup t with
  | some name => name
  | none => .concat ["Tag(", .decimal t.byte.toNat, ")"]

end Tag

inductive Symbol where
  | utf8 (text : Text)
  | integer (value : Int32)
  /-- A class, by internal name. -/
  | classRef (name : Text)
  | string (text : Text)
  | nameAndType (name descriptor : Text)
  | fieldRef (owner name descriptor : Text)
  | methodRef (owner name descriptor : Text)
deriving DecidableEq, Hashable

namespace Symbol

def tag : Symbol → Tag
  | .utf8 _ => .utf8
  | .integer _ => .integer
  | .classRef _ => .classRef
  | .string _ => .string
  | .nameAndType _ _ => .nameAndType
  | .fieldRef _ _ _ => .fieldRef
  | .methodRef _ _ _ => .methodRef

/-- The entries that an entry refers to, in the order in which it holds their indices. -/
def refs : Symbol → List Symbol
  | .utf8 _ => []
  | .integer _ => []
  | .classRef name => [.utf8 name]
  | .string text => [.utf8 text]
  | .nameAndType name descriptor => [.utf8 name, .utf8 descriptor]
  | .fieldRef owner name descriptor => [.classRef owner, .nameAndType name descriptor]
  | .methodRef owner name descriptor => [.classRef owner, .nameAndType name descriptor]

def text : Symbol → Text
  | .utf8 t => Quoted.quote t
  | .integer value => .signed value.toInt
  | .classRef name => name
  | .string t => Quoted.quote t
  | .nameAndType name descriptor => .concat [name, ":", descriptor]
  | .fieldRef owner name descriptor => .concat [owner, ".", name, ":", descriptor]
  | .methodRef owner name descriptor => .concat [owner, ".", name, ":", descriptor]

def owner? : Symbol → Option Symbol
  | .fieldRef owner _ _ => some (.classRef owner)
  | .methodRef owner _ _ => some (.classRef owner)
  | _ => none

def member? : Symbol → Option Symbol
  | .fieldRef _ name descriptor => some (.nameAndType name descriptor)
  | .methodRef _ name descriptor => some (.nameAndType name descriptor)
  | _ => none

def memberDescriptor? : Symbol → Option Text
  | .fieldRef _ _ descriptor => some descriptor
  | .methodRef _ _ descriptor => some descriptor
  | _ => none

/-- Whether an entry is a constant that listings show as a value. -/
def isLiteral : Symbol → Bool
  | .integer _ => true
  | .string _ => true
  | _ => false

end Symbol

end JvmAssembler
