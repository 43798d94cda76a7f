import JvmAssembler.Assembler.Builder

/-!
# Assemblers

An assembler makes one class. Classes and methods are begun and ended in calls that never stop it:
misuse is noted and reported when the class is ended. The symbols that the class refers to are
collected on the way, and a class that was ended can be written.
-/

set_option autoImplicit false

namespace JvmAssembler

structure Options where
  version : Version := .default
  /-- The limits that methods declare unless they are computed. -/
  limits : Limits := ⟨10, 10⟩
  computedLimits : Bool := false
deriving DecidableEq

structure Assembler where
  options : Options := {}
  table : Table := .empty
  classes : Array ClassBuilder := #[]
  methods : Array MethodBuilder := #[]
  /-- The finished class and its builder. -/
  finished : Option (ClassId × ClassDecl) := none
  log : Trail Log.Event := {}

namespace Assembler

instance : Inhabited Assembler := ⟨{}⟩

def defaultClassAccess : AccessFlags := .union .isPublic .isSuper

def defaultMethodAccess : AccessFlags := .union .isPublic .isStatic

/-- The finished class. -/
def current (a : Assembler) : Option ClassDecl := a.finished.map Prod.snd

def report (a : Assembler) (e : Log.Event) : Assembler := { a with log := a.log.push e }

def failClass (a : Assembler) (c : ClassId) (f : Failure) : Assembler :=
  { a with classes := a.classes.modify c (·.fail f) }

/-- Adds one use of a symbol and of everything it refers to. -/
def refer (a : Assembler) (s : Symbol) : Assembler := { a with table := a.table.refer s }

/-- What is wrong with beginning a class. Only the first class begun can be ended. -/
def beginClassProblem? (a : Assembler) (name : Text) (supers : List Text) : Option Failure :=
  match a.classes[0]? with
  | some first => some (.because .precondition "jasm.BeginClass" (.classAlreadyBegun first.name))
  | none =>
    if 1 < supers.length then
      some (.because .precondition "jasm.BeginClass" (.severalSupers name supers.length))
    else none

/-- The super class of a class that is begun with at most one. -/
def superOf (problem : Option Failure) (supers : List Text) : Text :=
  match problem, supers with
  | none, [super] => super
  | _, _ => ClassDecl.objectName

def beginClass (a : Assembler) (name : Text) (access : AccessFlags) (supers : List Text) :
    ClassId × Assembler :=
  let problem := a.beginClassProblem? name supers
  let builder : ClassBuilder :=
    { name, access, superName := superOf problem supers, problems := ⟨problem.toList⟩ }
  (a.classes.size, { a with classes := a.classes.push builder })

def openMethodText? (a : Assembler) (b : ClassBuilder) : Option Text :=
  b.openMethod.map fun m => ((a.methods[m]?).map MethodBuilder.text).getD []

def beginMethodProblem? (a : Assembler) (b : ClassBuilder) (method : Text) : Option Failure :=
  if b.ended then
    some (.because .precondition "jasm.BeginMethod" (.begunAfterClassEnd method b.name))
  else
    (a.openMethodText? b).map fun openMethod =>
      .because .precondition "jasm.BeginMethod" (.begunWhileOpen method openMethod)

/-- Begins a method in a class. When the class cannot take it the method is detached. -/
def beginMethod (a : Assembler) (c : ClassId) (access : AccessFlags) (name descriptor : Text) :
    MethodId × Assembler :=
  let m := a.methods.size
  let problem := (a.classes[c]?).bind fun b => a.beginMethodProblem? b (name ++ descriptor)
  let stage : Stage := if problem.isSome then .detached else .live
  let builder : MethodBuilder := { owner := c, access, name, descriptor, stage }
  let a := { a with methods := a.methods.push builder }
  match problem with
  | some f => (m, a.failClass c f)
  | none => (m, { a with classes := a.classes.modify c fun b => { b with openMethod := some m } })

def emit (a : Assembler) (m : MethodId) (e : Emission) : Assembler :=
  match a.methods[m]? with
  | none => a
  | some b =>
    let emitted := b.emit e
    let a := { a with methods := a.methods.setIfInBounds m emitted.builder }
    let a := match emitted.symbol with
      | some s => a.refer s
      | none => a
    match emitted.classProblem with
    | some f => a.failClass b.owner f
    | none => a

def endMethodOperation : Text := "jasm.MethodBuilder.End"

def methodLimits (a : Assembler) (b : MethodBuilder) : Except Failure Limits :=
  if a.options.computedLimits then
    Limits.compute b.instructions.toList b.access b.descriptor
  else .ok a.options.limits

/-- The limits of a method that is ended, if it has no problems. -/
def closeMethod (a : Assembler) (b : MethodBuilder) : Except Failure Limits :=
  match b.allProblems with
  | [] => a.methodLimits b
  | causes =>
    .error (.fault .precondition endMethodOperation
      (.context b.text (.several (causes.map .cause))))

/-- Interns what every written method needs: the name of its code attribute, if it has code, its
name and its descriptor. -/
def referMethod (t : Table) (b : MethodBuilder) : Table :=
  let t := if b.instructions.isEmpty then t else t.refer (.utf8 ClassFile.codeAttribute)
  (t.refer (.utf8 b.name)).refer (.utf8 b.descriptor)

def methodEvent (className : Text) (m : Method) : Log.Event :=
  ⟨[("class", .text className), ("method", .text m.text),
    ("instructions", .number m.instructions.length),
    ("max_stack", .number m.limits.stack.toNat), ("max_locals", .number m.limits.locals.toNat)],
   "method ended"⟩

def addMethod (a : Assembler) (c : ClassId) (m : Method) : Assembler :=
  let className := ((a.classes[c]?).map ClassBuilder.name).getD []
  let a := { a with classes := a.classes.modify c fun b => { b with methods := b.methods.push m } }
  a.report (methodEvent className m)

/-- Closes a method and takes it out of its class's open place. -/
def markClosed (a : Assembler) (m : MethodId) (c : ClassId) : Assembler :=
  { a with
    methods := a.methods.modify m fun b => { b with stage := .closed }
    classes := a.classes.modify c fun b => { b with openMethod := none } }

/-- Ends a method that is live: it becomes part of its class, or its class fails with it. -/
def endLiveMethod (a : Assembler) (m : MethodId) (b : MethodBuilder) :
    Except Failure Unit × Assembler :=
  let a := a.markClosed m b.owner
  match a.closeMethod b with
  | .error f => (.error f, a.failClass b.owner f)
  | .ok limits =>
    let a := { a with table := referMethod a.table b }
    match Method.make b.access b.name b.descriptor (b.instructions.toList.map some) limits with
    | .error f => (.error f, a.failClass b.owner f)
    | .ok method => (.ok (), a.addMethod b.owner method)

def endMethod (a : Assembler) (m : MethodId) : Except Failure Unit × Assembler :=
  match a.methods[m]? with
  | none => (.error (.because .precondition endMethodOperation (.methodNeverBegun [])), a)
  | some b =>
    match b.stage with
    | .detached =>
      (.error (.because .precondition endMethodOperation (.methodNeverBegun b.text)), a)
    | .closed =>
      (.error (.because .precondition endMethodOperation (.methodAlreadyEnded b.text)), a)
    | .live => a.endLiveMethod m b

def endClassOperation : Text := "jasm.ClassBuilder.End"

def classEvent (t : Table) (c : ClassDecl) : Log.Event :=
  ⟨[("class", .text c.name), ("super", .text c.superName), ("methods", .number c.methods.length),
    ("pool_entries", .number t.size)], "class ended"⟩

def finishClass (a : Assembler) (c : ClassId) (b : ClassBuilder) :
    Except Failure ClassDecl × Assembler :=
  let a := (a.refer (.classRef b.name)).refer (.classRef b.superName)
  match ClassDecl.make b.access b.name b.superName (b.methods.toList.map some) with
  | .error f => (.error f, a)
  | .ok decl =>
    let a := if c = 0 then { a with finished := some (c, decl) } else a
    let event := classEvent a.table decl
    (.ok decl, a.report event)

/-- Marks a class as ended and closes the method that is open in it. -/
def markEnded (a : Assembler) (c : ClassId) (b : ClassBuilder) : Assembler :=
  let a := { a with
    classes := a.classes.modify c fun b => { b with ended := true, openMethod := none } }
  match b.openMethod with
  | some m => { a with methods := a.methods.modify m fun b => { b with stage := .closed } }
  | none => a

/-- Ends a class. The first class begun becomes the assembler's class. -/
def endClass (a : Assembler) (c : ClassId) : Except Failure ClassDecl × Assembler :=
  match a.classes[c]? with
  | none => (.error (.because .precondition endClassOperation (.classAlreadyEnded [])), a)
  | some b =>
    if b.ended then
      (.error (.because .precondition endClassOperation (.classAlreadyEnded b.name)), a)
    else
      let problems := b.allProblems (a.openMethodText? b)
      let a := a.markEnded c b
      match problems with
      | [] => a.finishClass c b
      | _ => (.error (.fault .precondition endClassOperation (.aggregate problems)), a)

def serialize (a : Assembler) (c : Option ClassDecl) : Except Failure Bytes × Assembler :=
  match ClassFile.write a.options.version a.table c, c with
  | .ok bytes, some decl =>
    let event := ClassFile.writtenEvent a.table decl bytes
    (.ok bytes, a.report event)
  | result, _ => (result, a)

def write (a : Assembler) : Except Failure Bytes × Assembler :=
  match a.current with
  | none => (.error (.because .precondition "jasm.Write" .noClassEnded), a)
  | some c => a.serialize (some c)

end Assembler

inductive Call where
  | beginClass (name : Text) (access : AccessFlags) (supers : List Text)
  | beginMethod (c : ClassId) (access : AccessFlags) (name descriptor : Text)
  | emit (m : MethodId) (e : Emission)
  | endMethod (m : MethodId)
  | endClass (c : ClassId)
  /-- Interns a symbol with everything it refers to. -/
  | refer (s : Symbol)
deriving DecidableEq

namespace Assembler

def step (a : Assembler) : Call → Assembler
  | .beginClass name access supers => (a.beginClass name access supers).2
  | .beginMethod c access name descriptor => (a.beginMethod c access name descriptor).2
  | .emit m e => a.emit m e
  | .endMethod m => (a.endMethod m).2
  | .endClass c => (a.endClass c).2
  | .refer s => a.refer s

def run (a : Assembler) (calls : List Call) : Assembler := calls.foldl step a

end Assembler

end JvmAssembler
