import JvmAssembler.Text

/-!
# Access flags

The flags of a class or a method, as one 16-bit word.
-/

set_option autoImplicit false

namespace JvmAssembler

structure AccessFlags where
  bits : UInt16
deriving DecidableEq

namespace AccessFlags

def isPublic : AccessFlags := ⟨0x0001⟩
def isPrivate : AccessFlags := ⟨0x0002⟩
def isProtected : AccessFlags := ⟨0x0004⟩
def isStatic : AccessFlags := ⟨0x0008⟩
def isFinal : AccessFlags := ⟨0x0010⟩
def isSuper : AccessFlags := ⟨0x0020⟩
def isAbstract : AccessFlags := ⟨0x0400⟩
def isSynthetic : AccessFlags := ⟨0x1000⟩

def union (f g : AccessFlags) : AccessFlags := ⟨f.bits ||| g.bits⟩

/-- Whether all flags of the second set are in the first. -/
def has (f g : AccessFlags) : Bool := f.bits &&& g.bits == g.bits

/-- The named flags with their names, in the order in which they are listed. -/
def named : List (AccessFlags × Text) :=
  [(isPublic, "public"), (isPrivate, "private"), (isProtected, "protected"), (isStatic, "static"),
   (isFinal, "final"), (isSuper, "super"), (isAbstract, "abstract"), (isSynthetic, "synthetic")]

/-- The names of the flags that are set, separated by spaces. -/
def text (f : AccessFlags) : Text :=
  Text.join " " ((named.filter fun flag => f.has flag.1).map Prod.snd)

end AccessFlags

end JvmAssembler
