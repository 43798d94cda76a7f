import JvmAssembler.AccessFlags
import JvmAssembler.ClassFile.RawPool
import JvmAssembler.ClassFile.Write

/-!
# Reading class files

What a class file holds. Interfaces, fields and attributes other than a method's code are read over;
everything must be there, and nothing may follow.
-/

set_option autoImplicit false

namespace JvmAssembler

structure CodeInfo where
  limits : Limits
  code : Bytes
deriving DecidableEq

structure MethodInfo where
  access : AccessFlags
  nameIndex : UInt16
  name : Text
  descriptor : Text
  code : Option CodeInfo
deriving DecidableEq

structure ClassFile where
  version : Version
  access : AccessFlags
  thisIndex : UInt16
  superIndex : UInt16
  thisName : Text
  superName : Text
  /-- The pool entries in the order of their indices, which start at 1. -/
  pool : Array Symbol
  methods : List MethodInfo

namespace ClassFile

def symbolIn (pool : Array Symbol) (i : Int) : Option Symbol :=
  if i < 1 then none else pool[i.toNat - 1]?

def symbol? (f : ClassFile) (i : Int) : Option Symbol := symbolIn f.pool i

/-- The first index of an entry. -/
def indexOf? (f : ClassFile) (s : Symbol) : Option Nat := (f.pool.idxOf? s).map (· + 1)

def textIn (pool : Array Symbol) (i : UInt16) : Except ReadError Text :=
  match symbolIn pool i.toNat with
  | some (.utf8 text) => .ok text
  | some s => .error (.notUtf8 i.toNat s.tag)
  | none => .error (.indexOutOfRange i.toNat)

def classNameIn (pool : Array Symbol) (i : UInt16) : Except ReadError Text :=
  match symbolIn pool i.toNat with
  | some (.classRef name) => .ok name
  | some s => .error (.notClass i.toNat s.tag)
  | none => .error (.indexOutOfRange i.toNat)

def skipAttribute : Reader Unit := do
  let _name ← Reader.u2
  let length ← Reader.u4
  let _body ← Reader.take length.toNat

def skipAttributes : Reader Unit := do
  let count ← Reader.u2
  let _attributes ← Reader.many count.toNat fun _ => skipAttribute

def skipField : Reader Unit := do
  let _head ← Reader.take 6
  skipAttributes

def readCode : Reader CodeInfo := do
  let stack ← Reader.u2
  let locals ← Reader.u2
  let length ← Reader.u4
  let code ← Reader.take length.toNat
  let handlers ← Reader.u2
  let _table ← Reader.take (8 * handlers.toNat)
  skipAttributes
  pure ⟨⟨stack, locals⟩, code⟩

/-- Reads one attribute of the named method; the code, if that is what the attribute holds. -/
def readMethodAttribute (pool : Array Symbol) (method : Text) : Reader (Option CodeInfo) := do
  let nameIndex ← Reader.u2
  let length ← Reader.u4
  let body ← Reader.take length.toNat
  let name ← Reader.lift (textIn pool nameIndex)
  if name = codeAttribute then
    match readCode body with
    | .ok (code, _) => pure (some code)
    | .error e => Reader.fail (.malformedCode method e)
  else pure none

def lastCode (found : List (Option CodeInfo)) : Option CodeInfo :=
  found.foldl (fun last code => code.or last) none

/-- Reads one method. The last code attribute counts. -/
def readMethod (pool : Array Symbol) : Reader MethodInfo := do
  let access ← Reader.u2
  let nameIndex ← Reader.u2
  let descriptorIndex ← Reader.u2
  let count ← Reader.u2
  let name ← Reader.lift (textIn pool nameIndex)
  let descriptor ← Reader.lift (textIn pool descriptorIndex)
  let codes ← Reader.many count.toNat fun _ => readMethodAttribute pool name
  pure ⟨⟨access⟩, nameIndex, name, descriptor, lastCode codes⟩

def readMagic : Reader Unit := do
  let found ← Reader.u4
  if found.toNat = magic then pure () else Reader.fail (.badMagic found)

def readPool : Reader (Array Symbol) := do
  let count ← Reader.u2
  if count = 0 then Reader.fail .emptyPoolCount
  else
    let raw ← Reader.many (count.toNat - 1) RawEntry.read
    let symbols ← Reader.lift (RawPool.symbols raw.toArray)
    pure symbols.toArray

/-- Reads a class file up to its last attribute. -/
def read : Reader ClassFile := do
  readMagic
  let minor ← Reader.u2
  let major ← Reader.u2
  let pool ← readPool
  let access ← Reader.u2
  let thisIndex ← Reader.u2
  let superIndex ← Reader.u2
  let thisName ← Reader.lift (classNameIn pool thisIndex)
  let superName ← Reader.lift (classNameIn pool superIndex)
  let interfaces ← Reader.u2
  let _interfaces ← Reader.take (2 * interfaces.toNat)
  let fields ← Reader.u2
  let _fields ← Reader.many fields.toNat fun _ => skipField
  let count ← Reader.u2
  let methods ← Reader.many count.toNat fun _ => readMethod pool
  skipAttributes
  pure ⟨⟨major, minor⟩, ⟨access⟩, thisIndex, superIndex, thisName, superName, pool, methods⟩

def parse (bytes : Bytes) : Except ReadError ClassFile :=
  match read bytes with
  | .ok (f, []) => .ok f
  | .ok (_, rest) => .error (.trailing rest.length)
  | .error e => .error e

end ClassFile

end JvmAssembler
