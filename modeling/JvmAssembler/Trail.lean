/-!
# Trails

A trail is a list that grows at its end and is read from its start.
-/

set_option autoImplicit false

namespace JvmAssembler

/-- A list that grows at its end. -/
structure Trail (α : Type) where
  newestFirst : List α := []

namespace Trail

variable {α : Type}

def toList (t : Trail α) : List α := t.newestFirst.reverse

def push (t : Trail α) (a : α) : Trail α := ⟨a :: t.newestFirst⟩

def isEmpty (t : Trail α) : Bool := t.newestFirst.isEmpty

def length (t : Trail α) : Nat := t.newestFirst.length

@[simp]
theorem toList_push (t : Trail α) (a : α) : (t.push a).toList = t.toList ++ [a] := by
  simp [toList, push]

@[simp]
theorem length_toList (t : Trail α) : t.toList.length = t.length := by
  simp [toList, length]

end Trail

end JvmAssembler
