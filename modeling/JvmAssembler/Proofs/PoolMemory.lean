import Mathlib.Logic.Equiv.Defs
import Mathlib.Logic.Relation
import JvmAssembler.Proofs.PoolSubstitution

/-!
# Pools built with a memory

Substitution gives an index the symbol that its entry makes of the symbols at the indices it refers
to, all the way down. It knows no depth, no memory and no order. Building agrees with it from every
memory in which nothing is wrong, in every order of the indices, and for every order of the entries;
a pool with a wrong tag or with a cycle is given up.
-/

set_option autoImplicit false
set_option relaxedAutoImplicit false

namespace JvmAssembler

/-- Two entries that are alike except that the indices in the second are those in the first under a
renumbering. -/
inductive RawEntry.Renumbered (ρ : Nat → Nat) : RawEntry → RawEntry → Prop where
  | utf8 (text : Text) : Renumbered ρ (.utf8 text) (.utf8 text)
  | integer (value : Int32) : Renumbered ρ (.integer value) (.integer value)
  | classRef {i i' : UInt16} (name : i'.toNat = ρ i.toNat) :
    Renumbered ρ (.classRef i) (.classRef i')
  | string {i i' : UInt16} (text : i'.toNat = ρ i.toNat) : Renumbered ρ (.string i) (.string i')
  | nameAndType {i i' j j' : UInt16} (name : i'.toNat = ρ i.toNat)
    (descriptor : j'.toNat = ρ j.toNat) : Renumbered ρ (.nameAndType i j) (.nameAndType i' j')
  | fieldRef {i i' j j' : UInt16} (owner : i'.toNat = ρ i.toNat) (member : j'.toNat = ρ j.toNat) :
    Renumbered ρ (.fieldRef i j) (.fieldRef i' j')
  | methodRef {i i' j j' : UInt16} (owner : i'.toNat = ρ i.toNat) (member : j'.toNat = ρ j.toNat) :
    Renumbered ρ (.methodRef i j) (.methodRef i' j')

namespace RawPool

/-- The symbol that an index denotes: what its entry makes of the symbols that the indices in it
denote. -/
inductive Denotes (raw : List RawEntry) : Nat → Symbol → Prop where
  | entry {index : Nat} {e : RawEntry} {s : Symbol} {parts : List (Nat × Symbol)}
    (place : EntryAt raw index e) (makes : e.Makes s parts)
    (below : ∀ p ∈ parts, Denotes raw p.1 p.2) : Denotes raw index s

def Refers (raw : List RawEntry) (index next : Nat) : Prop :=
  ∃ e, EntryAt raw index e ∧ ∃ r ∈ e.references, r.1.toNat = next

/-- The second pool holds the entries of the first in another order. An entry has moved from `i` to
`ρ i`, and the indices in it have followed. -/
structure Rearranged (ρ : Equiv.Perm Nat) (raw raw' : List RawEntry) : Prop where
  moved : ∀ i e, EntryAt raw i e → ∃ e', EntryAt raw' (ρ i) e' ∧ e.Renumbered ρ e'
  moved_back : ∀ i e', EntryAt raw' i e' →
    ∃ e, EntryAt raw (ρ.symm i) e ∧ e'.Renumbered ρ.symm e

instance (raw : List RawEntry) (index : Nat) (tag : Tag) : Decidable (HasTag raw index tag) :=
  decidable_of_iff (0 < index ∧ raw[index - 1]?.map RawEntry.tag = some tag) (by
    simp [HasTag, EntryAt, and_assoc])

instance (raw : List RawEntry) : Decidable (WellTagged raw) :=
  List.decidableBAll (fun e : RawEntry => ∀ r ∈ e.references, HasTag raw r.1.toNat r.2) raw

section

variable {raw raw' : List RawEntry} {index : Nat} {s : Symbol}

private theorem denotes_utf8_iff {text : Text} :
    Denotes raw index (.utf8 text) ↔ EntryAt raw index (.utf8 text) := by
  constructor
  · rintro ⟨place, makes, -⟩
    cases makes
    exact place
  · intro place
    exact .entry place (.utf8 text) (by simp)

private theorem denotes_classRef_iff {name : Text} :
    Denotes raw index (.classRef name) ↔ ClassAt raw index name := by
  constructor
  · rintro ⟨place, makes, below⟩
    cases makes with
    | classRef i => exact ⟨i, place, denotes_utf8_iff.mp (below _ List.mem_cons_self)⟩
  · rintro ⟨i, place, named⟩
    exact .entry place (.classRef i name) (by simpa [denotes_utf8_iff] using named)

private theorem denotes_nameAndType_iff {name descriptor : Text} :
    Denotes raw index (.nameAndType name descriptor) ↔ MemberAt raw index name descriptor := by
  constructor
  · rintro ⟨place, makes, below⟩
    cases makes with
    | nameAndType i j =>
      simp only [List.forall_mem_cons, denotes_utf8_iff] at below
      exact ⟨i, j, place, below.1, below.2.1⟩
  · rintro ⟨i, j, place, named, described⟩
    exact .entry place (.nameAndType i j name descriptor)
      (by simpa [denotes_utf8_iff] using ⟨named, described⟩)

private theorem exists_makes_of_means {e : RawEntry} (means : e.Means raw s) :
    ∃ parts, e.Makes s parts ∧ ∀ p ∈ parts, Denotes raw p.1 p.2 := by
  cases e with
  | utf8 text =>
    cases means
    exact ⟨_, .utf8 text, by simp⟩
  | integer value =>
    cases means
    exact ⟨_, .integer value, by simp⟩
  | classRef i =>
    obtain ⟨n, named, rfl⟩ := means
    exact ⟨_, .classRef i n, by simpa [denotes_utf8_iff] using named⟩
  | string i =>
    obtain ⟨n, told, rfl⟩ := means
    exact ⟨_, .string i n, by simpa [denotes_utf8_iff] using told⟩
  | nameAndType i j =>
    obtain ⟨n, d, named, described, rfl⟩ := means
    exact ⟨_, .nameAndType i j n d, by simpa [denotes_utf8_iff] using ⟨named, described⟩⟩
  | fieldRef i j =>
    obtain ⟨o, n, d, owned, named, rfl⟩ := means
    exact ⟨_, .fieldRef i j o n d,
      by simpa [denotes_classRef_iff, denotes_nameAndType_iff] using ⟨owned, named⟩⟩
  | methodRef i j =>
    obtain ⟨o, n, d, owned, named, rfl⟩ := means
    exact ⟨_, .methodRef i j o n d,
      by simpa [denotes_classRef_iff, denotes_nameAndType_iff] using ⟨owned, named⟩⟩

private theorem means_of_makes {e : RawEntry} {parts : List (Nat × Symbol)}
    (makes : e.Makes s parts) (below : ∀ p ∈ parts, Denotes raw p.1 p.2) : e.Means raw s := by
  cases makes <;>
    simp_all [RawEntry.Means, denotes_utf8_iff, denotes_classRef_iff, denotes_nameAndType_iff]

private theorem denotes_iff : Denotes raw index s ↔ ∃ e, EntryAt raw index e ∧ e.Means raw s := by
  constructor
  · rintro ⟨place, makes, below⟩
    exact ⟨_, place, means_of_makes makes below⟩
  · rintro ⟨e, place, means⟩
    obtain ⟨parts, makes, below⟩ := exists_makes_of_means means
    exact .entry place makes below

private theorem Denotes.unique {s' : Symbol} (first : Denotes raw index s)
    (second : Denotes raw index s') : s = s' := by
  obtain ⟨e, place, means⟩ := denotes_iff.mp first
  obtain ⟨e', place', means'⟩ := denotes_iff.mp second
  cases place.unique place'
  exact means_unique means means'

private theorem Faithful.denotes {memo : Memo} (faithful : Faithful raw memo) (positive : 0 < index)
    (remembered : memo[index - 1]? = some (some s)) : Denotes raw index s := by
  obtain ⟨e, place, means⟩ := faithful _ s remembered
  exact denotes_iff.mpr ⟨e, ⟨positive, place⟩, means⟩

private theorem height_le_three (s : Symbol) : height s ≤ 3 := by
  cases s <;> simp [height]

private theorem supports_denotes (raw : List RawEntry) :
    Supports raw.toArray (Denotes raw) (Faithful raw) where
  entry denotes := by
    obtain ⟨place, makes, below⟩ := denotes
    refine ⟨place.1, _, ?_, _, makes, below⟩
    rw [List.getElem?_toArray]
    exact place.2
  remembered := by
    intro memo index s r faithful denotes known
    obtain ⟨place, makes, below⟩ := denotes
    exact (faithful.denotes place.1 known).unique (.entry place makes below)
  stored := by
    intro memo index s faithful denotes
    obtain ⟨e, place, means⟩ := denotes_iff.mp denotes
    exact faithful.set place.2 means

private theorem Denotes.build_yields (denotes : Denotes raw index s) {depth : Nat}
    (deep : 3 ≤ depth) : Yields (Faithful raw) (build raw.toArray depth index) s :=
  (supports_denotes raw).build_yields depth index s denotes (Nat.le_trans (height_le_three s) deep)

/-- Indices are built in any order, from any memory in which nothing is wrong, into exactly what
they denote. -/
private theorem mapM_build_eq_ok_iff {memo : Memo} (faithful : Faithful raw memo) {depth : Nat}
    (deep : 3 ≤ depth) {order : List Nat} {found : List Symbol} :
    (∃ memo', order.mapM (build raw.toArray depth) memo = .ok (found, memo')) ↔
      List.Forall₂ (Denotes raw) order found := by
  constructor
  · rintro ⟨memo', ran⟩
    have gives := Gives.mapM fun index (_ : index ∈ order) => build_gives raw depth index
    have related := (gives memo found memo' faithful ran).1
    exact List.Forall₂.imp (fun _ _ means => denotes_iff.mpr means) related
  · intro denoted
    have each : List.Forall₂
        (fun index s => Yields (Faithful raw) (build raw.toArray depth index) s) order found :=
      List.Forall₂.imp (fun _ _ denotes => Denotes.build_yields denotes deep) denoted
    obtain ⟨memo', ran, -⟩ := Yields.mapM each memo faithful
    exact ⟨memo', ran⟩

private theorem build_eq_ok_iff {memo : Memo} (faithful : Faithful raw memo) {depth : Nat}
    (deep : 3 ≤ depth) :
    (∃ memo', build raw.toArray depth index memo = .ok (s, memo')) ↔ Denotes raw index s := by
  constructor
  · rintro ⟨memo', ran⟩
    exact denotes_iff.mpr (build_gives raw depth index memo s memo' faithful ran).1
  · intro denotes
    obtain ⟨memo', ran, -⟩ := denotes.build_yields deep memo faithful
    exact ⟨memo', ran⟩

private theorem Meant.at_iff_denotes {pool : List Symbol} (meant : Meant raw pool) :
    At pool index s ↔ Denotes raw index s := by
  rw [meant.at_iff, denotes_iff]

private theorem wellTagged_iff_denotes :
    WellTagged raw ↔ ∀ i e, EntryAt raw i e → ∃ s, Denotes raw i s := by
  constructor
  · intro tagged i e place
    obtain ⟨s, means⟩ := tagged.exists_means place.mem
    exact ⟨s, denotes_iff.mpr ⟨e, place, means⟩⟩
  · intro denoted e member
    obtain ⟨k, inside, rfl⟩ := List.getElem_of_mem member
    have place : EntryAt raw (k + 1) raw[k] := ⟨Nat.succ_pos k, List.getElem?_eq_getElem inside⟩
    obtain ⟨s, denotes⟩ := denoted _ _ place
    obtain ⟨e, place', means⟩ := denotes_iff.mp denotes
    cases place.unique place'
    exact hasTag_of_means means

private theorem exists_symbols_iff : (∃ pool, symbols raw.toArray = .ok pool) ↔ WellTagged raw := by
  rw [← exists_meant_iff]
  exact exists_congr fun _ => symbols_eq_ok_iff

end

section

variable {raw : List RawEntry} {i j : Nat} {s : Symbol}

private theorem map_fst_of_makes {e : RawEntry} {parts : List (Nat × Symbol)}
    (makes : e.Makes s parts) : parts.map Prod.fst = e.references.map fun r => r.1.toNat := by
  cases makes <;> rfl

private theorem Denotes.of_refers (denotes : Denotes raw i s) (refers : Refers raw i j) :
    ∃ r, Denotes raw j r ∧ height r < height s := by
  obtain ⟨place, makes, below⟩ := denotes
  obtain ⟨e, place', r, referred, rfl⟩ := refers
  cases place.unique place'
  have among := List.mem_map_of_mem (f := fun r : UInt16 × Tag => r.1.toNat) referred
  rw [← map_fst_of_makes makes] at among
  obtain ⟨p, member, same⟩ := List.mem_map.mp among
  rw [← same]
  exact ⟨p.2, below p member, height_lt_of_makes makes p member⟩

private theorem Denotes.of_transGen (denotes : Denotes raw i s)
    (path : Relation.TransGen (Refers raw) i j) : ∃ r, Denotes raw j r ∧ height r < height s := by
  induction path with
  | single refers => exact denotes.of_refers refers
  | tail _ refers ih =>
    obtain ⟨r, denotes', lower⟩ := ih
    obtain ⟨q, denotes'', lower'⟩ := denotes'.of_refers refers
    exact ⟨q, denotes'', Nat.lt_trans lower' lower⟩

private theorem not_denotes_of_cycle (path : Relation.ReflTransGen (Refers raw) i j)
    (cycle : Relation.TransGen (Refers raw) j j) : ¬ Denotes raw i s := by
  -- Heights fall along references, so a symbol on the cycle would be lower than itself.
  have still : ∀ r, ¬ Denotes raw j r := by
    intro r denotes
    obtain ⟨q, denotes', lower⟩ := denotes.of_transGen cycle
    rw [denotes.unique denotes'] at lower
    exact Nat.lt_irrefl _ lower
  intro denotes
  rcases Relation.reflTransGen_iff_eq_or_transGen.mp path with rfl | path
  · exact still s denotes
  · obtain ⟨r, denotes', -⟩ := denotes.of_transGen path
    exact still r denotes'

private theorem not_wellTagged_of_cycle (cycle : Relation.TransGen (Refers raw) j j) :
    ¬ WellTagged raw := by
  intro tagged
  obtain ⟨_, ⟨e, place, -⟩, -⟩ := Relation.TransGen.head'_iff.mp cycle
  obtain ⟨s, denotes⟩ := wellTagged_iff_denotes.mp tagged j e place
  exact not_denotes_of_cycle .refl cycle denotes

end

section

variable {ρ : Nat → Nat} {raw raw' : List RawEntry} {i : Nat} {s : Symbol}

private theorem makes_of_renumbered {e e' : RawEntry} {parts : List (Nat × Symbol)}
    (alike : e.Renumbered ρ e') (makes : e.Makes s parts) :
    e'.Makes s (parts.map fun p => (ρ p.1, p.2)) := by
  cases alike with
  | utf8 text => cases makes; exact .utf8 text
  | integer value => cases makes; exact .integer value
  | classRef name =>
    cases makes with
    | classRef i n => rw [List.map_singleton, ← name]; exact .classRef _ n
  | string text =>
    cases makes with
    | string i n => rw [List.map_singleton, ← text]; exact .string _ n
  | nameAndType name descriptor =>
    cases makes with
    | nameAndType i j n d =>
      rw [List.map_cons, List.map_singleton, ← name, ← descriptor]
      exact .nameAndType _ _ n d
  | fieldRef owner member =>
    cases makes with
    | fieldRef i j o n d =>
      rw [List.map_cons, List.map_singleton, ← owner, ← member]
      exact .fieldRef _ _ o n d
  | methodRef owner member =>
    cases makes with
    | methodRef i j o n d =>
      rw [List.map_cons, List.map_singleton, ← owner, ← member]
      exact .methodRef _ _ o n d

private theorem Denotes.moved
    (moved : ∀ i e, EntryAt raw i e → ∃ e', EntryAt raw' (ρ i) e' ∧ e.Renumbered ρ e')
    (denotes : Denotes raw i s) : Denotes raw' (ρ i) s := by
  induction denotes with
  | entry place makes _ ih =>
    obtain ⟨e', place', alike⟩ := moved _ _ place
    exact .entry place' (makes_of_renumbered alike makes) (List.forall_mem_map.mpr ih)

end

section

variable {ρ : Equiv.Perm Nat} {raw raw' : List RawEntry} {i : Nat} {s : Symbol}

private theorem Rearranged.denotes_iff (rearranged : Rearranged ρ raw raw') :
    Denotes raw' (ρ i) s ↔ Denotes raw i s := by
  constructor
  · intro denotes
    have back := denotes.moved rearranged.moved_back
    rwa [Equiv.symm_apply_apply] at back
  · exact Denotes.moved rearranged.moved

private theorem Rearranged.wellTagged_iff (rearranged : Rearranged ρ raw raw') :
    WellTagged raw' ↔ WellTagged raw := by
  rw [wellTagged_iff_denotes, wellTagged_iff_denotes]
  constructor
  · intro denoted i e place
    obtain ⟨e', place', -⟩ := rearranged.moved i e place
    obtain ⟨s, denotes⟩ := denoted _ e' place'
    exact ⟨s, rearranged.denotes_iff.mp denotes⟩
  · intro denoted i e' place'
    obtain ⟨e, place, -⟩ := rearranged.moved_back i e' place'
    obtain ⟨s, denotes⟩ := denoted _ e place
    have there := rearranged.denotes_iff.mpr denotes
    rw [Equiv.apply_symm_apply] at there
    exact ⟨s, there⟩

end

structure AgreesWithSubstitution (raw : List RawEntry) : Prop where
  /-- Building all entries succeeds exactly when every reference leads to an entry with the right
  tag. -/
  succeeds_iff : (∃ pool, symbols raw.toArray = .ok pool) ↔ WellTagged raw
  symbol_iff : ∀ pool, symbols raw.toArray = .ok pool →
    pool.length = raw.length ∧ ∀ index s, At pool index s ↔ Denotes raw index s
  /-- Whatever was built before, and in whatever order indices are built now, each gives what it
  denotes, if three levels are allowed. -/
  from_memory : ∀ memo, Faithful raw memo → ∀ depth, 3 ≤ depth → ∀ order found,
    (∃ memo', order.mapM (build raw.toArray depth) memo = .ok (found, memo')) ↔
      List.Forall₂ (Denotes raw) order found
  starts_faithful : ∀ n, Faithful raw (Array.replicate n none)
  stays_faithful : ∀ memo depth index s memo', Faithful raw memo →
    build raw.toArray depth index memo = .ok (s, memo') → Faithful raw memo'
  /-- The order of the entries makes no difference. -/
  rearranged : ∀ ρ raw', Rearranged ρ raw raw' →
    ((∃ pool', symbols raw'.toArray = .ok pool') ↔ ∃ pool, symbols raw.toArray = .ok pool) ∧
      ∀ pool pool', symbols raw.toArray = .ok pool → symbols raw'.toArray = .ok pool' →
        ∀ index s, At pool' (ρ index) s ↔ At pool index s
  rejects_wrong_tags : ¬ WellTagged raw → ∃ problem, symbols raw.toArray = .error problem
  /-- From wherever a cycle can be reached, building fails. -/
  rejects_cycles : ∀ index place, Relation.ReflTransGen (Refers raw) index place →
    Relation.TransGen (Refers raw) place place →
      (∃ problem, symbols raw.toArray = .error problem) ∧
        ∀ memo, Faithful raw memo →
          ∃ problem, build raw.toArray maxDepth index memo = .error problem

private theorem exists_error_of_not_ok {α : Type} {result : Except ReadError α}
    (failed : ¬ ∃ a, result = .ok a) : ∃ problem, result = .error problem := by
  cases result with
  | error problem => exact ⟨problem, rfl⟩
  | ok a => exact absurd ⟨a, rfl⟩ failed

/-- Any list of raw entries, with whatever references, is built into what substitution gives, or not
at all. -/
theorem symbols_agree_with_substitution (raw : List RawEntry) : AgreesWithSubstitution raw where
  succeeds_iff := exists_symbols_iff
  symbol_iff pool built := by
    have meant := symbols_eq_ok_iff.mp built
    exact ⟨(List.Forall₂.length_eq meant).symm, fun _ _ => meant.at_iff_denotes⟩
  from_memory _ faithful _ deep _ _ := mapM_build_eq_ok_iff faithful deep
  starts_faithful n := faithful_nothing n
  stays_faithful memo depth index s memo' faithful ran :=
    (build_gives raw depth index memo s memo' faithful ran).2
  rearranged ρ raw' rearranged := by
    refine ⟨?_, fun pool pool' built built' index s => ?_⟩
    · rw [exists_symbols_iff, exists_symbols_iff]
      exact rearranged.wellTagged_iff
    · rw [(symbols_eq_ok_iff.mp built').at_iff_denotes, (symbols_eq_ok_iff.mp built).at_iff_denotes]
      exact rearranged.denotes_iff
  rejects_wrong_tags wrong :=
    exists_error_of_not_ok fun built => wrong (exists_symbols_iff.mp built)
  rejects_cycles index place path cycle := by
    constructor
    · apply exists_error_of_not_ok
      rw [exists_symbols_iff]
      exact not_wellTagged_of_cycle cycle
    · intro memo faithful
      apply exists_error_of_not_ok
      rintro ⟨⟨s, memo'⟩, ran⟩
      exact not_denotes_of_cycle path cycle ((build_eq_ok_iff faithful (by decide)).mp ⟨memo', ran⟩)

def forwardPool : List RawEntry :=
  [.methodRef 2 3, .classRef 4, .nameAndType 5 6, .utf8 "A", .utf8 "f", .utf8 "()V"]

def loopingPool : List RawEntry := [.methodRef 2 3, .classRef 2, .nameAndType 4 4, .utf8 "f"]

theorem symbols_agree_on_forward_and_looping_pools :
    (∃ pool, symbols forwardPool.toArray = .ok pool ∧ At pool 1 (.methodRef "A" "f" "()V")) ∧
      Refers loopingPool 1 2 ∧ Refers loopingPool 2 2 ∧
        ∃ problem, symbols loopingPool.toArray = .error problem := by
  have agrees := symbols_agree_with_substitution forwardPool
  obtain ⟨pool, built⟩ := agrees.succeeds_iff.mpr (by decide)
  have owner : ClassAt forwardPool 2 "A" := ⟨4, ⟨by decide, rfl⟩, by decide, rfl⟩
  have member : MemberAt forwardPool 3 "f" "()V" :=
    ⟨5, 6, ⟨by decide, rfl⟩, ⟨by decide, rfl⟩, by decide, rfl⟩
  have method : Denotes forwardPool 1 (.methodRef "A" "f" "()V") :=
    denotes_iff.mpr ⟨_, ⟨by decide, rfl⟩, _, _, _, owner, member, rfl⟩
  have reached : Refers loopingPool 1 2 := ⟨_, ⟨by decide, rfl⟩, (2, .classRef), by decide, rfl⟩
  have loop : Refers loopingPool 2 2 := ⟨_, ⟨by decide, rfl⟩, (2, .utf8), by decide, rfl⟩
  refine ⟨⟨pool, built, ((agrees.symbol_iff pool built).2 _ _).mpr method⟩, reached, loop, ?_⟩
  exact ((symbols_agree_with_substitution loopingPool).rejects_cycles 1 2 (.single reached)
    (.single loop)).1

end RawPool

end JvmAssembler
