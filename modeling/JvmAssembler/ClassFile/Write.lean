import JvmAssembler.ClassDecl
import JvmAssembler.ClassFile.Writer
import JvmAssembler.Log
import JvmAssembler.Pool.Index
import JvmAssembler.Text.ModifiedUtf8

/-!
# Writing class files

The bytes of a class: header, constant pool, class, methods. The pool comes from the class's table;
everything that the class refers to must be in it.
-/

set_option autoImplicit false

namespace JvmAssembler

structure Version where
  major : UInt16
  minor : UInt16
deriving DecidableEq

def Version.default : Version := ⟨52, 0⟩

namespace ClassFile

def magic : Nat := 0xCAFEBABE

def codeAttribute : Text := "Code"

/-- The bytes of a code attribute's body besides the code. -/
def codeOverhead : Nat := 12

def writeOperation : Text := "classfile.Write"

def u1 (name : Text) (value : Nat) : Field := .number .u1 name value

def u2 (name : Text) (value : Nat) : Field := .number .u2 name value

def u4 (name : Text) (value : Nat) : Field := .number .u4 name value

def headerFields (v : Version) : List Field :=
  [u4 "magic" magic, u2 "minor version" v.minor.toNat, u2 "major version" v.major.toNat]

def bodyFields (x : PoolIndex) (s : Symbol) : Except Failure (List Field) :=
  match s with
  | .utf8 text =>
    if Utf8.isValid text then
      let bytes := ModifiedUtf8.encode text
      let name : Text := .concat ["length of text ", Quoted.quoteFront 20 text]
      .ok [u2 name bytes.length, .raw bytes]
    else .error (.because .invariant writeOperation (.unwritableText text))
  | .integer value => .ok [u4 "integer" value.toUInt32.toNat]
  | s => s.refs.mapM fun r => (x.lookup r).map fun i => u2 "pool reference" i.toNat

def entryBytes (x : PoolIndex) (s : Symbol) : Except Failure Bytes := do
  let body ← bodyFields x s
  Field.encodeAll (u1 "tag" s.tag.byte.toNat :: body)

def poolBytes (x : PoolIndex) : Except Failure Bytes := do
  let count ← Field.encodeAll [u2 "constant pool count" (x.size + 1)]
  let entries ← x.entries.toList.mapM (entryBytes x)
  pure (count ++ entries.flatten)

/-- The fields of a code attribute, given the pool index of its name. -/
def codeFields (name : UInt16) (limits : Limits) (code : Bytes) : List Field :=
  let length := code.length
  [u2 "attribute name" name.toNat, u4 "code attribute length" (length + codeOverhead),
   u2 "max stack" limits.stack.toNat, u2 "max locals" limits.locals.toNat,
   u4 "code length" length, .raw code, u2 "exception table length" 0,
   u2 "code attributes count" 0]

def attributeFields (x : PoolIndex) (m : Method) : Except Failure (List Field) :=
  if m.hasCode then do
    let name ← x.lookup (.utf8 codeAttribute)
    let code ← Code.encode x.lookup m.instructions
    pure (u2 "method attributes count" 1 :: codeFields name m.limits code)
  else .ok [u2 "method attributes count" 0]

def methodBytes (x : PoolIndex) (m : Method) : Except Failure Bytes := do
  let name ← x.lookup (.utf8 m.name)
  let descriptor ← x.lookup (.utf8 m.descriptor)
  let attributes ← attributeFields x m
  Field.encodeAll
    (u2 "method access flags" m.access.bits.toNat :: u2 "method name" name.toNat ::
      u2 "method descriptor" descriptor.toNat :: attributes)

/-- The bytes of a class behind its constant pool: no interfaces, no fields, the methods, and no
attributes. -/
def classBytes (x : PoolIndex) (c : ClassDecl) : Except Failure Bytes := do
  let this ← x.lookup (.classRef c.name)
  let super ← x.lookup (.classRef c.superName)
  let front ← Field.encodeAll
    [u2 "class access flags" c.access.bits.toNat, u2 "this class" this.toNat,
     u2 "super class" super.toNat, u2 "interfaces count" 0, u2 "fields count" 0,
     u2 "methods count" c.methods.length]
  let methods ← c.methods.mapM (methodBytes x)
  let back ← Field.encodeAll [u2 "class attributes count" 0]
  pure (front ++ methods.flatten ++ back)

/-- The class file of a class whose symbols are in a table. -/
def write (v : Version) (t : Table) (c : Option ClassDecl) : Except Failure Bytes :=
  match c with
  | none => .error (.because .invariant writeOperation .missingClass)
  | some c => do
    let x ← t.resolve
    let header ← Field.encodeAll (headerFields v)
    let pool ← poolBytes x
    let body ← classBytes x c
    pure (header ++ pool ++ body)

def writtenEvent (t : Table) (c : ClassDecl) (bytes : Bytes) : Log.Event :=
  ⟨[("class", .text c.name), ("pool_entries", .number t.size),
    ("methods", .number c.methods.length), ("bytes", .number bytes.length)], "class written"⟩

end ClassFile

end JvmAssembler
