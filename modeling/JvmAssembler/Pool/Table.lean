import Std.Data.HashMap
import JvmAssembler.Failure

/-!
# Symbol tables

A table collects the symbols that a class refers to. It keeps them in the order in which they were
first interned and counts how often each one was.
-/

set_option autoImplicit false

namespace JvmAssembler

/-- The symbols of a class with their usage counts. -/
structure Table where
  /-- The symbols in the order of first use. -/
  order : Array Symbol
  counts : Std.HashMap Symbol Nat
  nodup : order.toList.Nodup
  mem_order_iff : ∀ s, s ∈ order ↔ s ∈ counts

namespace Table

def empty : Table := ⟨#[], ∅, by simp, by simp⟩

instance : Inhabited Table := ⟨empty⟩

def count (t : Table) (s : Symbol) : Nat := t.counts.getD s 0

def contains (t : Table) (s : Symbol) : Bool := t.counts.contains s

def size (t : Table) : Nat := t.order.size

/-- The symbols in the order of first use. -/
def symbols (t : Table) : List Symbol := t.order.toList

private theorem mem_insert_old {order : Array Symbol} {counts : Std.HashMap Symbol Nat}
    (mem : ∀ r, r ∈ order ↔ r ∈ counts) {s : Symbol} {n : Nat} (found : counts[s]? = some n)
    (k : Nat) (r : Symbol) : r ∈ order ↔ r ∈ counts.insert s k := by
  rw [mem, Std.HashMap.mem_insert, beq_iff_eq]
  have known : s ∈ counts := Std.HashMap.mem_iff_isSome_getElem?.mpr (by simp [found])
  exact ⟨Or.inr, fun h => h.elim (fun e => e ▸ known) id⟩

private theorem mem_insert_new {order : Array Symbol} {counts : Std.HashMap Symbol Nat}
    (mem : ∀ r, r ∈ order ↔ r ∈ counts) (s : Symbol) (k : Nat) (r : Symbol) :
    r ∈ order.push s ↔ r ∈ counts.insert s k := by
  rw [Array.mem_push, mem, Std.HashMap.mem_insert, beq_iff_eq, or_comm, eq_comm]

private theorem nodup_push {order : Array Symbol} {counts : Std.HashMap Symbol Nat}
    (nodup : order.toList.Nodup) (mem : ∀ r, r ∈ order ↔ r ∈ counts) {s : Symbol}
    (missing : counts[s]? = none) : (order.push s).toList.Nodup := by
  have fresh : s ∉ order := by
    rw [mem, Std.HashMap.mem_iff_isSome_getElem?, missing]
    simp
  have apart : ∀ r ∈ order.toList, r ≠ s := fun r hr equal =>
    fresh (equal ▸ Array.mem_toList_iff.mp hr)
  simpa [List.nodup_append, nodup] using apart

def intern : Table → Symbol → Table
  | ⟨order, counts, nodup, mem⟩, s =>
    match found : counts[s]? with
    | some n => ⟨order, counts.insert s (n + 1), nodup, mem_insert_old mem found (n + 1)⟩
    | none => ⟨order.push s, counts.insert s 1, nodup_push nodup mem found, mem_insert_new mem s 1⟩

def internAll (t : Table) (ss : List Symbol) : Table := ss.foldl intern t

end Table

namespace Symbol

/-- What a symbol makes use of, each use once: the whole of its first reference, the whole of its
second, and itself. -/
def uses : Symbol → List Symbol
  | .utf8 text => [.utf8 text]
  | .integer value => [.integer value]
  | .classRef name => [.utf8 name, .classRef name]
  | .string text => [.utf8 text, .string text]
  | .nameAndType name descriptor =>
    [.utf8 name, .utf8 descriptor, .nameAndType name descriptor]
  | .fieldRef owner name descriptor =>
    [.utf8 owner, .classRef owner, .utf8 name, .utf8 descriptor, .nameAndType name descriptor,
      .fieldRef owner name descriptor]
  | .methodRef owner name descriptor =>
    [.utf8 owner, .classRef owner, .utf8 name, .utf8 descriptor, .nameAndType name descriptor,
      .methodRef owner name descriptor]

end Symbol

namespace Table

/-- Adds one use of a symbol and of everything it refers to, what is referred to first. -/
def refer (t : Table) (s : Symbol) : Table := t.internAll s.uses

/-- A symbol as the table holds it; one that is missing stands for itself. -/
def held (t : Table) (s : Symbol) : Symbol := t.counts.getKeyD s s

end Table

inductive TableCall where
  /-- Interns a symbol alone. -/
  | intern (s : Symbol)
  /-- Interns a symbol behind everything it refers to. -/
  | refer (s : Symbol)
deriving DecidableEq

namespace TableCall

def symbol : TableCall → Symbol
  | .intern s => s
  | .refer s => s

def apply (t : Table) : TableCall → Table
  | .intern s => t.intern s
  | .refer s => t.refer s

/-- Answers a call with the symbol as the table then holds it. -/
def answer (t : Table) (call : TableCall) : Symbol × Table :=
  let t := call.apply t
  (t.held call.symbol, t)

end TableCall

def Table.answerAll (t : Table) : List TableCall → List Symbol × Table
  | [] => ([], t)
  | call :: calls =>
    let (s, t) := call.answer t
    let (ss, t) := t.answerAll calls
    (s :: ss, t)

end JvmAssembler
