import JvmAssembler.Failure

/-!
# Kinds of nested failures

A failure is searched along links. A context and a fault lead to the failure inside, an aggregate
to the chain of its members, and a chain asks its first member, by a search of that member alone,
before it leads to the chain of the later ones. The search meets the parts of a failure from the
outside in, members in order, and passes over none of them.
-/

set_option autoImplicit false
set_option relaxedAutoImplicit false

namespace JvmAssembler

namespace Failure

mutual

def parts : Failure → List Failure
  | .cause c => [.cause c]
  | .bareKind k => [.bareKind k]
  | .context label inner => .context label inner :: inner.parts
  | .fault k operation inner => .fault k operation inner :: inner.parts
  | .nothing => [.nothing]
  | .several members => .several members :: partsOf members

def partsOf : List Failure → List Failure
  | [] => []
  | member :: members => member.parts ++ partsOf members

end

def ownKind? : Failure → Option Kind
  | .fault k _ _ => some k
  | _ => none

def yes? (b : Bool) : Option Unit := if b then some () else none

private theorem yes?_or (a b : Bool) : yes? (a || b) = (yes? a).or (yes? b) := by
  cases a <;> rfl

private theorem isSome_yes? (b : Bool) : (yes? b).isSome = b := by
  cases b <;> rfl

def ownIsKind (k : Kind) : Failure → Bool
  | .fault k' _ _ => k' == k
  | .bareKind k' => k' == k
  | _ => false

/-- Where a search stands: at a failure, or at the members of an aggregate that are still to be
searched. -/
inductive Link where
  | failure (f : Failure)
  | chain (first : Failure) (later : List Failure)

namespace Link

/-- The link that follows. An aggregate with one member leads to that member, one with more members
to their chain. -/
def next : Link → Option Link
  | .failure (.context _ inner) => some (.failure inner)
  | .failure (.fault _ _ inner) => some (.failure inner)
  | .failure (.several [only]) => some (.failure only)
  | .failure (.several (first :: second :: later)) => some (.chain first (second :: later))
  | .failure _ => none
  | .chain _ [] => none
  | .chain _ (second :: later) => some (.chain second later)

private theorem sizeOf_lt_of_next {l l' : Link} (follows : l.next = some l') :
    sizeOf l' < sizeOf l := by
  unfold next at follows
  split at follows <;> cases follows <;> simp <;> omega

private theorem sizeOf_first_lt (first : Failure) (later : List Failure) :
    sizeOf (Link.failure first) < sizeOf (Link.chain first later) := by
  cases later <;> simp only [failure.sizeOf_spec, chain.sizeOf_spec, List.nil.sizeOf_spec,
    List.cons.sizeOf_spec] <;> omega

/-- The first answer that is found from a link on. A chain answers what a search of its first member
finds. -/
def search {α : Type} (answer : Failure → Option α) : Link → Option α
  | .failure f =>
    (answer f).or <|
      match _follows : (Link.failure f).next with
      | none => none
      | some l => search answer l
  | .chain first later =>
    (search answer (.failure first)).or <|
      match _follows : (Link.chain first later).next with
      | none => none
      | some l => search answer l
termination_by l => l
decreasing_by
  · exact sizeOf_lt_of_next _follows
  · exact sizeOf_first_lt first later
  · exact sizeOf_lt_of_next _follows

/-- A search is determined by what one step of it does: to ask where it stands, and to go on. -/
private theorem eq_search_of_step {α : Type} {answer : Failure → Option α} (found : Link → Option α)
    (failure : ∀ f, found (.failure f) = (answer f).or ((Link.failure f).next.bind found))
    (chain : ∀ first later, found (.chain first later) =
      (found (.failure first)).or ((Link.chain first later).next.bind found)) (l : Link) :
    found l = l.search answer := by
  -- A search goes on at smaller links only, so the induction is along the search itself.
  fun_induction search answer l with
  | case1 f ih =>
    rw [failure]
    split
    · next ends => rw [ends, Option.bind_none]
    · next l follows => rw [follows, Option.bind_some, ih l follows]
  | case2 first later asked ih =>
    rw [chain, asked]
    split
    · next ends => rw [ends, Option.bind_none]
    · next l follows => rw [follows, Option.bind_some, ih l follows]

def parts : Link → List Failure
  | .failure f => f.parts
  | .chain first later => partsOf (first :: later)

private theorem parts_failure (f : Failure) :
    (Link.failure f).parts = [f] ++ ((Link.failure f).next.map parts).getD [] := by
  cases f with
  | several members =>
    -- A member that is alone is not made a chain of.
    rcases members with _ | ⟨only, _ | ⟨second, later⟩⟩
    · rfl
    · simp [parts, next, Failure.parts, partsOf]
    · rfl
  | _ => rfl

private theorem parts_chain (first : Failure) (later : List Failure) :
    (Link.chain first later).parts =
      first.parts ++ ((Link.chain first later).next.map parts).getD [] := by
  cases later <;> rfl

private theorem findSome?_parts {α : Type} (answer : Failure → Option α) (l : Link) :
    l.parts.findSome? answer = l.search answer := by
  have onward : ∀ next : Option Link, ((next.map parts).getD []).findSome? answer =
      next.bind fun l => l.parts.findSome? answer := by
    intro next
    cases next <;> rfl
  apply eq_search_of_step fun l => l.parts.findSome? answer
  · intro f
    rw [parts_failure, List.findSome?_append, List.findSome?_singleton, onward]
  · intro first later
    rw [parts_chain, List.findSome?_append, onward]
    rfl

def faultKind? : Link → Option Kind
  | .failure f => f.faultKind?
  | .chain first later => faultKindOf? (first :: later)

private theorem faultKind?_eq_search (l : Link) : l.faultKind? = l.search ownKind? := by
  apply eq_search_of_step faultKind?
  · intro f
    cases f with
    | several members =>
      rcases members with _ | ⟨only, _ | ⟨second, later⟩⟩
      · rfl
      · exact Option.or_none
      · rfl
    | _ => rfl
  · intro first later
    cases later <;> rfl

def isKind (k : Kind) : Link → Bool
  | .failure f => f.isKind k
  | .chain first later => anyIsKind k (first :: later)

private theorem yes?_isKind (k : Kind) (l : Link) :
    yes? (l.isKind k) = l.search fun f => yes? (f.ownIsKind k) := by
  apply eq_search_of_step fun l : Link => yes? (l.isKind k)
  · intro f
    cases f with
    | bareKind k' => exact Option.or_none.symm
    | fault k' operation inner => exact yes?_or (k' == k) (inner.isKind k)
    | several members =>
      rcases members with _ | ⟨only, _ | ⟨second, later⟩⟩
      · rfl
      · exact congrArg yes? (Bool.or_false _)
      · rfl
    | _ => rfl
  · intro first later
    rcases later with _ | ⟨second, later⟩
    · exact yes?_or (first.isKind k) false
    · exact yes?_or (first.isKind k) (anyIsKind k (second :: later))

private theorem isKind_eq_search (k : Kind) (l : Link) :
    l.isKind k = (l.search fun f => yes? (f.ownIsKind k)).isSome := by
  rw [← yes?_isKind, isSome_yes?]

end Link

private theorem partsOf_append (fs gs : List Failure) :
    partsOf (fs ++ gs) = partsOf fs ++ partsOf gs := by
  induction fs with
  | nil => rfl
  | cons f fs ih => rw [List.cons_append, partsOf, partsOf, ih, List.append_assoc]

section

variable {α : Type} {answer : Failure → Option α} (quiet : ∀ fs, answer (.several fs) = none)
  (silent : answer .nothing = none)

include quiet silent

private theorem findSome?_partsOf_members (f : Failure) :
    (partsOf f.members).findSome? answer = f.parts.findSome? answer := by
  cases f with
  | several fs => rw [members, parts, List.findSome?_cons, quiet]
  | nothing => rw [members, parts, List.findSome?_singleton, silent]; rfl
  | _ => exact congrArg (List.findSome? answer) (List.append_nil _)

private theorem findSome?_partsOf_flatMap_members (fs : List Failure) :
    (partsOf (fs.flatMap members)).findSome? answer = (partsOf fs).findSome? answer := by
  induction fs with
  | nil => rfl
  | cons f fs ih =>
    rw [List.flatMap_cons, partsOf_append, partsOf, List.findSome?_append, List.findSome?_append,
      ih, findSome?_partsOf_members quiet silent]

private theorem search_aggregate (fs : List Failure) :
    (Link.failure (aggregate fs)).search answer = (Link.failure (.several fs)).search answer := by
  rw [← Link.findSome?_parts, ← Link.findSome?_parts]
  cases fs with
  | nil =>
    change [nothing].findSome? answer = [several []].findSome? answer
    rw [List.findSome?_singleton, List.findSome?_singleton, silent, quiet]
  | cons f fs =>
    change (several ((f :: fs).flatMap members) :: partsOf _).findSome? answer =
      (several (f :: fs) :: partsOf (f :: fs)).findSome? answer
    rw [List.findSome?_cons, List.findSome?_cons, quiet, quiet]
    exact findSome?_partsOf_flatMap_members quiet silent (f :: fs)

end

private theorem kind_eq_search (f : Failure) :
    f.kind = ((Link.failure f).search ownKind?).getD .unspecified := by
  rw [← Link.faultKind?_eq_search]
  rfl

private theorem isKind_eq_search (k : Kind) (f : Failure) :
    f.isKind k = ((Link.failure f).search fun g => yes? (g.ownIsKind k)).isSome :=
  Link.isKind_eq_search k (.failure f)

private theorem eq_fault_of_ownKind? {f : Failure} {k : Kind} (own : f.ownKind? = some k) :
    ∃ operation inner, f = .fault k operation inner := by
  cases f with
  | fault k' operation inner =>
    cases own
    exact ⟨operation, inner, rfl⟩
  | _ => cases own

private theorem ownIsKind_iff {f : Failure} {k : Kind} :
    f.ownIsKind k = true ↔ f = .bareKind k ∨ ∃ operation inner, f = .fault k operation inner := by
  cases f <;> simp [ownIsKind]

private theorem kind_cases (f : Failure) :
    ((∀ g ∈ f.parts, g.ownKind? = none) ∧ f.kind = .unspecified) ∨
      ∃ before operation inner after,
        f.parts = before ++ .fault f.kind operation inner :: after ∧
          ∀ g ∈ before, g.ownKind? = none := by
  rw [kind_eq_search, ← Link.findSome?_parts, Link.parts]
  rcases first : f.parts.findSome? ownKind? with _ | k
  · exact Or.inl ⟨List.findSome?_eq_none_iff.mp first, rfl⟩
  · obtain ⟨before, g, after, split, own, none⟩ := List.findSome?_eq_some_iff.mp first
    obtain ⟨operation, inner, rfl⟩ := eq_fault_of_ownKind? own
    exact Or.inr ⟨before, operation, inner, after, split, none⟩

private theorem isKind_iff (k : Kind) (f : Failure) :
    f.isKind k = true ↔
      ∃ g ∈ f.parts, g = .bareKind k ∨ ∃ operation inner, g = .fault k operation inner := by
  rw [isKind_eq_search, ← Link.findSome?_parts, List.findSome?_isSome_iff]
  simp only [isSome_yes?, ownIsKind_iff]
  rfl

/-- However deep a failure is nested, a search along its links reports the kind of the first fault
from the outside in, and finds a kind exactly where a fault has it or it stands on its own. To
collect failures into one aggregate changes neither. -/
theorem kinds_found_in_parts (f : Failure) :
    (f.kind = ((Link.failure f).search ownKind?).getD .unspecified ∧
      ∀ k, f.isKind k = ((Link.failure f).search fun g => yes? (g.ownIsKind k)).isSome) ∧
    (((∀ g ∈ f.parts, g.ownKind? = none) ∧ f.kind = .unspecified) ∨
      ∃ before operation inner after,
        f.parts = before ++ .fault f.kind operation inner :: after ∧
          ∀ g ∈ before, g.ownKind? = none) ∧
    (∀ k, f.isKind k = true ↔
      ∃ g ∈ f.parts, g = .bareKind k ∨ ∃ operation inner, g = .fault k operation inner) ∧
    (f.kind ≠ .unspecified → f.isKind f.kind = true) ∧
    ∀ fs, (aggregate fs).kind = (several fs).kind ∧
      ∀ k, (aggregate fs).isKind k = (several fs).isKind k := by
  refine ⟨⟨f.kind_eq_search, fun k => f.isKind_eq_search k⟩, f.kind_cases, fun k => f.isKind_iff k,
    fun specified => ?_, fun fs => ⟨?_, fun k => ?_⟩⟩
  · obtain ⟨-, missing⟩ | ⟨before, operation, inner, after, split, -⟩ := f.kind_cases
    · exact absurd missing specified
    · refine (f.isKind_iff f.kind).mpr ⟨_, ?_, Or.inr ⟨operation, inner, rfl⟩⟩
      rw [split]
      simp
  · rw [kind_eq_search, kind_eq_search, search_aggregate (fun _ => rfl) rfl]
  · rw [isKind_eq_search, isKind_eq_search, search_aggregate (fun _ => rfl) rfl]

-- A kind on its own is found, but it is not what the failure is reported as.
example :
    let f := Failure.several [.bareKind .invariant, .context [] (.fault .overflow [] .nothing)]
    f.kind = .overflow ∧ f.isKind .invariant = true ∧ f.isKind .precondition = false := by
  decide

end Failure

end JvmAssembler
