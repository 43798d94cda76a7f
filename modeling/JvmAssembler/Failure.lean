import JvmAssembler.Failure.Cause

/-!
# Failures

A failure is a tree. Its leaves are causes; around them stand contexts, aggregates of several
failures, and faults, which say whose fault it is and in which operation. The kind of a failure is
that of the first fault met from the outside in, members of an aggregate in order.
-/

set_option autoImplicit false

namespace JvmAssembler

/-- Whose fault a failure is. The code is open: only three codes have a meaning of their own. -/
structure Kind where
  code : Int
deriving DecidableEq

namespace Kind

def unspecified : Kind := ⟨0⟩

/-- The caller declared something invalid. -/
def precondition : Kind := ⟨1⟩

/-- The assembler is inconsistent, for instance about which symbols were interned. -/
def invariant : Kind := ⟨2⟩

/-- A count, index or length does not fit its fixed-width field. -/
def overflow : Kind := ⟨3⟩

def text (k : Kind) : Text :=
  if k = precondition then "precondition violated"
  else if k = invariant then "internal invariant violated"
  else if k = overflow then "overflow"
  else "error"

end Kind

inductive Failure where
  | cause (cause : Cause)
  /-- A kind on its own, which serves as a failure too. -/
  | bareKind (kind : Kind)
  /-- A failure in a context that is named before it. -/
  | context (label : Text) (inner : Failure)
  /-- A failure of a kind in an operation. -/
  | fault (kind : Kind) (operation : Text) (inner : Failure)
  /-- No failure at all, where a reason is expected. -/
  | nothing
  /-- Several failures reported as one. -/
  | several (members : List Failure)

namespace Failure

instance : Inhabited Failure := ⟨.bareKind .unspecified⟩

mutual

def message : Failure → Text
  | .cause c => c.message
  | .bareKind k => k.text
  | .context label inner => label ++ Text.ofString ": " ++ inner.message
  | .fault k operation inner =>
    if operation = [] then k.text ++ Text.ofString ": " ++ inner.message
    else k.text ++ Text.ofString ": " ++ operation ++ Text.ofString ": " ++ inner.message
  | .nothing => "<nil>"
  | .several [] => "0 errors occurred:\n\t\n\n"
  | .several (member :: members) =>
    (if members.isEmpty then Text.ofString "1 error occurred:"
      else Text.decimal (members.length + 1) ++ Text.ofString " errors occurred:")
      ++ bullets [] (member :: members) ++ Text.ofString "\n\n"

/-- The members of an aggregate, each on a line of its own, behind the lines in `found`, newest
first. -/
def bullets (found : List Text) : List Failure → Text
  | [] => found.reverse.flatten
  | member :: members => bullets ((Text.ofString "\n\t* " ++ member.message) :: found) members

end

mutual

/-- The kind of the outermost, leftmost fault. -/
def faultKind? : Failure → Option Kind
  | .cause _ => none
  | .bareKind _ => none
  | .context _ inner => inner.faultKind?
  | .fault k _ _ => some k
  | .nothing => none
  | .several members => faultKindOf? members

def faultKindOf? : List Failure → Option Kind
  | [] => none
  | member :: members => (member.faultKind?).or (faultKindOf? members)

end

mutual

/-- The operation of the outermost, leftmost fault. -/
def operation? : Failure → Option Text
  | .cause _ => none
  | .bareKind _ => none
  | .context _ inner => inner.operation?
  | .fault _ operation _ => some operation
  | .nothing => none
  | .several members => operationOf? members

def operationOf? : List Failure → Option Text
  | [] => none
  | member :: members => (member.operation?).or (operationOf? members)

end

mutual

/-- Whether a kind occurs anywhere in a failure, as that of a fault or on its own. -/
def isKind (k : Kind) : Failure → Bool
  | .cause _ => false
  | .bareKind k' => k' == k
  | .context _ inner => inner.isKind k
  | .fault k' _ inner => k' == k || inner.isKind k
  | .nothing => false
  | .several members => anyIsKind k members

def anyIsKind (k : Kind) : List Failure → Bool
  | [] => false
  | member :: members => member.isKind k || anyIsKind k members

end

/-- The kind of a failure, unspecified when no fault is in it. -/
def kind (f : Failure) : Kind := f.faultKind?.getD .unspecified

/-- The failures that an aggregate holds; any other failure by itself. -/
def members : Failure → List Failure
  | .several members => members
  | .nothing => []
  | f => [f]

/-- Several failures as one, where an aggregate among them counts as its members. Where there are
none, nothing failed. -/
def aggregate (failures : List Failure) : Failure :=
  match failures with
  | [] => .nothing
  | _ => .several (failures.flatMap members)

def because (kind : Kind) (operation : Text) (cause : Cause) : Failure :=
  .fault kind operation (.cause cause)

end Failure

end JvmAssembler
