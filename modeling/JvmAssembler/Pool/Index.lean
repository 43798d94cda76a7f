import JvmAssembler.Pool.Table

/-!
# Pool indices

The symbols of a finished table, ranked by use. The most used symbols come first, so that their
indices fit in one byte; symbols used equally often keep their order of first use.
-/

set_option autoImplicit false

namespace JvmAssembler

/-- The entries of a constant pool and the way back from entry to index. -/
structure PoolIndex where
  /-- The entries in the order of their indices, which start at 1. -/
  entries : Array Symbol
  indices : Std.HashMap Symbol UInt16

namespace PoolIndex

/-- The largest number of entries: the count field of a class file holds one more, in 16 bits. -/
def maxEntries : Nat := 65534

def size (x : PoolIndex) : Nat := x.entries.size

def lookup (x : PoolIndex) (s : Symbol) : Except Failure UInt16 :=
  match x.indices[s]? with
  | some i => .ok i
  | none => .error (.because .invariant "pool.Lookup" (.neverInterned s))

def at? (x : PoolIndex) (i : Int) : Option Symbol :=
  if i < 1 then none else x.entries[i.toNat - 1]?

def ofEntries (entries : List Symbol) : PoolIndex :=
  ⟨entries.toArray,
    (entries.foldl
      (fun (state : Std.HashMap Symbol UInt16 × UInt16) s =>
        (state.1.insert s (state.2 + 1), state.2 + 1))
      (∅, 0)).1⟩

end PoolIndex

namespace Table

/-- The symbols ranked by falling count; equal counts keep the order of first use. -/
def ranked (t : Table) : List Symbol :=
  ((t.symbols.map fun s => (s, t.count s)).mergeSort fun a b => b.2 ≤ a.2).map Prod.fst

/-- The first reference, in order of first use, that leads out of the table. -/
def dangling? (t : Table) : Option (Symbol × Symbol) :=
  t.symbols.findSome? fun s => (s.refs.find? fun r => !t.contains r).map fun r => (s, r)

/-- Assigns the final indices. The table stays as it is. -/
def resolve (t : Table) : Except Failure PoolIndex :=
  if PoolIndex.maxEntries < t.size then
    .error (.because .overflow "pool.Resolve" (.poolTooLarge t.size PoolIndex.maxEntries))
  else
    match t.dangling? with
    | some (s, r) => .error (.because .invariant "pool.Resolve" (.danglingReference s r))
    | none => .ok (.ofEntries t.ranked)

end Table

end JvmAssembler
