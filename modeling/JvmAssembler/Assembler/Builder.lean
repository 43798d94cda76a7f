import JvmAssembler.ClassFile.Write
import JvmAssembler.Trail

/-!
# Builders

What is known about a class or a method while it is being declared. Problems are collected and
reported when the declaration is closed.
-/

set_option autoImplicit false

namespace JvmAssembler

/-- Names a class builder of an assembler, in the order in which classes were begun. -/
abbrev ClassId := Nat

/-- Names a method builder of an assembler, in the order in which methods were begun. -/
abbrev MethodId := Nat

/-- Where a method is in its life. -/
inductive Stage where
  /-- It was begun when no method could be, and will never be part of a class. -/
  | detached
  | live
  /-- It was ended, by itself or with its class. -/
  | closed
deriving DecidableEq

structure MethodBuilder where
  owner : ClassId
  access : AccessFlags
  name : Text
  descriptor : Text
  stage : Stage
  instructions : Trail Instruction := {}
  /-- The names of the local variables; the first one used has slot 0. -/
  locals : Trail Text := {}
  problems : Trail Cause := {}

inductive Emission where
  /-- An instruction as it is, or none by mistake. -/
  | instruction (i : Option Instruction)
  /-- The next parameter, which takes the next slot. -/
  | parameter (name : Text)
  /-- An instruction on a named local variable. -/
  | localVariable (op : Opcode) (name : Text)
  | loadString (text : Text)
  | loadInteger (value : Int)
  | field (op : Opcode) (owner name descriptor : Text)
  | method (op : Opcode) (owner name descriptor : Text)
  | bare (op : Opcode)
deriving DecidableEq

def invalidText? (what text : Text) : Option Cause :=
  if Utf8.isValid text then none else some (.invalidText what text)

/-- The largest local variable slot that an instruction can name. -/
def maxSlot : Nat := 255

namespace MethodBuilder

def text (b : MethodBuilder) : Text := b.name ++ b.descriptor

/-- Notes a problem, which makes ending the method fail. -/
def fail (b : MethodBuilder) (c : Cause) : MethodBuilder := { b with problems := b.problems.push c }

def slot? (b : MethodBuilder) (name : Text) : Option Nat := b.locals.toList.idxOf? name

/-- The slot for an instruction on a local variable, which takes the next one when it is new. -/
def slotFor (b : MethodBuilder) (name : Text) : MethodBuilder × UInt8 :=
  match b.slot? name with
  | some n => (b, n.toUInt8)
  | none =>
    let n := b.locals.length
    let b := { b with locals := b.locals.push name }
    if maxSlot < n then (b.fail (.slotTooLarge name n maxSlot), 0) else (b, n.toUInt8)

/-- What an emission comes to: the builder after it, the symbol that it refers to, and a problem
for the class. -/
structure Emitted where
  builder : MethodBuilder
  symbol : Option Symbol := none
  classProblem : Option Failure := none

def emitOperation : Text := "jasm.MethodBuilder"

/-- Adds an instruction. A detached method ignores it, and a closed one makes its class fail. -/
def add (b : MethodBuilder) (i : Instruction) : Emitted :=
  match b.stage with
  | .detached => { builder := b }
  | .live => { builder := { b with instructions := b.instructions.push i } }
  | .closed =>
    { builder := b
      classProblem := some (.because .precondition emitOperation (.emittedAfterEnd i b.text)) }

def addConstant (b : MethodBuilder) (op : Opcode) (s : Symbol) : Emitted :=
  { b.add (.constant op (some s)) with symbol := some s }

def rejectText (b : MethodBuilder) (c : Cause) : Emitted :=
  if b.stage = .closed then
    { builder := b, classProblem := some (.because .precondition emitOperation c) }
  else { builder := b.fail c }

/-- Goes on if all texts are UTF-8, and turns the emission down for the first one that is not. -/
def withTexts (b : MethodBuilder) (what : Text) (texts : List Text) (go : Emitted) : Emitted :=
  match texts.findSome? (invalidText? what) with
  | some c => b.rejectText c
  | none => go

def emit (b : MethodBuilder) : Emission → Emitted
  | .instruction none => { builder := b.fail (.missingInstruction b.instructions.length) }
  | .instruction (some i) => b.add i
  | .parameter name =>
    if (b.slot? name).isSome then { builder := b.fail (.parameterAlreadyDeclared name) }
    else { builder := (b.slotFor name).1 }
  | .localVariable op name =>
    let (b, slot) := b.slotFor name
    b.add (.slot op slot)
  | .loadString text =>
    b.withTexts "string constant" [text] (b.addConstant .ldcW (.string text))
  | .loadInteger value =>
    if value < -2147483648 ∨ 2147483647 < value then
      { builder := b.fail (.integerTooLarge value) }
    else
      let i := Code.integerInstruction (Int32.ofInt value)
      { b.add i with symbol := i.symbols.head?.join }
  | .field op owner name descriptor =>
    b.withTexts "field reference" [owner, name, descriptor]
      (b.addConstant op (.fieldRef owner name descriptor))
  | .method op owner name descriptor =>
    b.withTexts "method reference" [owner, name, descriptor]
      (b.addConstant op (.methodRef owner name descriptor))
  | .bare op => b.add (.bare op)

def nameProblem? (b : MethodBuilder) : Option Cause :=
  if b.name = [] then some .emptyMethodName else invalidText? "method name" b.name

def descriptorProblem? (b : MethodBuilder) : Option Cause :=
  if b.descriptor = [] then some (.emptyMethodDescriptor b.name)
  else (invalidText? "method descriptor" b.descriptor).or <|
    match Descriptor.parseMethod b.descriptor with
    | .ok _ => none
    | .error e => some (.descriptor e)

def allProblems (b : MethodBuilder) : List Cause :=
  b.problems.toList ++ b.nameProblem?.toList ++ b.descriptorProblem?.toList

end MethodBuilder

structure ClassBuilder where
  name : Text
  access : AccessFlags
  superName : Text
  methods : Trail Method := {}
  openMethod : Option MethodId := none
  ended : Bool := false
  problems : Trail Failure := {}

namespace ClassBuilder

def fail (b : ClassBuilder) (f : Failure) : ClassBuilder := { b with problems := b.problems.push f }

/-- All that is wrong with a class when it is ended while the given method is open. -/
def allProblems (b : ClassBuilder) (openMethod : Option Text) : List Failure :=
  let causes :=
    (openMethod.map Cause.methodStillOpen).toList
      ++ (if b.name = [] then [.emptyClassName] else [])
      ++ (if b.superName = [] then [.emptySuperName b.name] else [])
      ++ (invalidText? "class name" b.name).toList
      ++ (invalidText? "super class name" b.superName).toList
  b.problems.toList ++ causes.map .cause

end ClassBuilder

end JvmAssembler
