import JvmAssembler.Code.Encoding
import JvmAssembler.Code.Limits

/-!
# Classes and methods

Finished classes and methods, ready to be written. They are made by functions that check what was
declared and report every problem at once.
-/

set_option autoImplicit false

namespace JvmAssembler

/-- A finished method. One without instructions has no code. -/
structure Method where
  access : AccessFlags
  name : Text
  descriptor : Text
  instructions : List Instruction
  limits : Limits
deriving DecidableEq

namespace Method

def text (m : Method) : Text := m.name ++ m.descriptor

def hasCode (m : Method) : Bool := !m.instructions.isEmpty

def symbols (m : Method) : List (Option Symbol) := m.instructions.flatMap Instruction.symbols

def instructionProblem (item : Option Instruction × Nat) : Option Cause :=
  match item.1 with
  | none => some (.missingInstruction item.2)
  | some i => if i.opcode.isKnown then none else some (.unknownOpcode item.2 i.opcode)

def problems (name descriptor : Text) (instructions : List (Option Instruction)) : List Cause :=
  (if name = [] then [.emptyMethodName] else [])
    ++ (if descriptor = [] then [.emptyMethodDescriptor name] else [])
    ++ instructions.zipIdx.filterMap instructionProblem

def make (access : AccessFlags) (name descriptor : Text)
    (instructions : List (Option Instruction)) (limits : Limits) : Except Failure Method :=
  match problems name descriptor instructions with
  | [] => .ok ⟨access, name, descriptor, instructions.filterMap id, limits⟩
  | causes =>
    .error (.fault .precondition "bytecode.NewMethod" (.several (causes.map .cause)))

end Method

def ClassDecl.maxMethods : Nat := 65535

structure ClassDecl where
  access : AccessFlags
  /-- The internal name of the class. -/
  name : Text
  /-- The internal name of its super class. -/
  superName : Text
  methods : List Method
  methods_length_le : methods.length ≤ ClassDecl.maxMethods
deriving DecidableEq

namespace ClassDecl

/-- The class at the root of the hierarchy. -/
def objectName : Text := "java/lang/Object"

def problems (name superName : Text) (methods : List (Option Method)) : List Cause :=
  (if name = [] then [.emptyClassName] else [])
    ++ (if superName = [] then [.emptySuperName name] else [])
    ++ (if maxMethods < methods.length then [.tooManyMethods methods.length] else [])
    ++ methods.zipIdx.filterMap fun m => if m.1.isNone then some (.missingMethod m.2) else none

private theorem methods_length_le_of_problems {name superName : Text}
    {methods : List (Option Method)} (clean : problems name superName methods = []) :
    (methods.filterMap id).length ≤ maxMethods := by
  have few : ¬ maxMethods < methods.length := by
    intro many
    simp [problems, many] at clean
  exact Nat.le_trans (List.length_filterMap_le _ _) (Nat.le_of_not_lt few)

def make (access : AccessFlags) (name superName : Text) (methods : List (Option Method)) :
    Except Failure ClassDecl :=
  match clean : problems name superName methods with
  | [] =>
    .ok ⟨access, name, superName, methods.filterMap id, methods_length_le_of_problems clean⟩
  | causes => .error (.fault .precondition "bytecode.NewClass" (.several (causes.map .cause)))

end ClassDecl

end JvmAssembler
