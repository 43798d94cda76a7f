import Mathlib.Data.List.Forall2
import Mathlib.Tactic.SplitIfs
import JvmAssembler.ClassFile.RawPool

/-!
# Building the symbols of a raw pool

A raw pool describes a list of symbols when every entry stands for the symbol at its position, its
references being read through the list. Building a pool that describes a list gives that list, in
whatever order the references run and whatever was built before.
-/

set_option autoImplicit false
set_option relaxedAutoImplicit false

namespace JvmAssembler

def RawPool.At (pool : List Symbol) (index : Nat) (s : Symbol) : Prop :=
  0 < index ∧ pool[index - 1]? = some s

/-- What a raw entry stands for when its references are read in a pool. -/
def RawEntry.Stands (pool : List Symbol) : RawEntry → Symbol → Prop
  | .utf8 text, s => s = .utf8 text
  | .integer value, s => s = .integer value
  | .classRef name, s => ∃ n, RawPool.At pool name.toNat (.utf8 n) ∧ s = .classRef n
  | .string text, s => ∃ n, RawPool.At pool text.toNat (.utf8 n) ∧ s = .string n
  | .nameAndType name descriptor, s =>
    ∃ n d, RawPool.At pool name.toNat (.utf8 n) ∧ RawPool.At pool descriptor.toNat (.utf8 d) ∧
      s = .nameAndType n d
  | .fieldRef owner member, s =>
    ∃ o n d, RawPool.At pool owner.toNat (.classRef o) ∧
      RawPool.At pool member.toNat (.nameAndType n d) ∧ s = .fieldRef o n d
  | .methodRef owner member, s =>
    ∃ o n d, RawPool.At pool owner.toNat (.classRef o) ∧
      RawPool.At pool member.toNat (.nameAndType n d) ∧ s = .methodRef o n d

/-- The symbol that an entry gives, with the symbols that it takes from the indices it refers to. -/
inductive RawEntry.Makes : RawEntry → Symbol → List (Nat × Symbol) → Prop where
  | utf8 (text : Text) : Makes (.utf8 text) (.utf8 text) []
  | integer (value : Int32) : Makes (.integer value) (.integer value) []
  | classRef (i : UInt16) (name : Text) :
    Makes (.classRef i) (.classRef name) [(i.toNat, .utf8 name)]
  | string (i : UInt16) (text : Text) : Makes (.string i) (.string text) [(i.toNat, .utf8 text)]
  | nameAndType (i j : UInt16) (name descriptor : Text) :
    Makes (.nameAndType i j) (.nameAndType name descriptor)
      [(i.toNat, .utf8 name), (j.toNat, .utf8 descriptor)]
  | fieldRef (i j : UInt16) (owner name descriptor : Text) :
    Makes (.fieldRef i j) (.fieldRef owner name descriptor)
      [(i.toNat, .classRef owner), (j.toNat, .nameAndType name descriptor)]
  | methodRef (i j : UInt16) (owner name descriptor : Text) :
    Makes (.methodRef i j) (.methodRef owner name descriptor)
      [(i.toNat, .classRef owner), (j.toNat, .nameAndType name descriptor)]

private theorem RawEntry.Stands.exists_makes {pool : List Symbol} {e : RawEntry} {s : Symbol}
    (stands : e.Stands pool s) :
    ∃ parts, e.Makes s parts ∧ ∀ p ∈ parts, RawPool.At pool p.1 p.2 := by
  cases e with
  | utf8 text =>
    cases stands
    exact ⟨_, .utf8 text, by simp⟩
  | integer value =>
    cases stands
    exact ⟨_, .integer value, by simp⟩
  | classRef name =>
    obtain ⟨n, place, rfl⟩ := stands
    exact ⟨_, .classRef name n, by simpa using place⟩
  | string text =>
    obtain ⟨n, place, rfl⟩ := stands
    exact ⟨_, .string text n, by simpa using place⟩
  | nameAndType name descriptor =>
    obtain ⟨n, d, place₁, place₂, rfl⟩ := stands
    exact ⟨_, .nameAndType name descriptor n d, by simpa using ⟨place₁, place₂⟩⟩
  | fieldRef owner member =>
    obtain ⟨o, n, d, place₁, place₂, rfl⟩ := stands
    exact ⟨_, .fieldRef owner member o n d, by simpa using ⟨place₁, place₂⟩⟩
  | methodRef owner member =>
    obtain ⟨o, n, d, place₁, place₂, rfl⟩ := stands
    exact ⟨_, .methodRef owner member o n d, by simpa using ⟨place₁, place₂⟩⟩

namespace RawPool

def Describes (raw : Array RawEntry) (pool : List Symbol) : Prop :=
  List.Forall₂ (RawEntry.Stands pool) raw.toList pool

structure Remembers (pool : List Symbol) (memo : Memo) : Prop where
  size_eq : memo.size = pool.length
  found : ∀ (k : Nat) (s : Symbol), memo[k]? = some (some s) → pool[k]? = some s

def height : Symbol → Nat
  | .utf8 _ => 1
  | .integer _ => 1
  | .classRef _ => 2
  | .string _ => 2
  | .nameAndType _ _ => 2
  | .fieldRef _ _ _ => 3
  | .methodRef _ _ _ => 3

theorem height_lt_of_makes {e : RawEntry} {s : Symbol} {parts : List (Nat × Symbol)}
    (makes : e.Makes s parts) : ∀ p ∈ parts, height p.2 < height s := by
  cases makes <;> simp [height]

/-- A step of building that gives a value from every memory of a sort and leaves one like it. -/
def Yields {α : Type} (kept : Memo → Prop) (step : Build α) (a : α) : Prop :=
  ∀ memo, kept memo → ∃ memo', step memo = .ok (a, memo') ∧ kept memo'

section

variable {α β : Type} {raw : Array RawEntry} {pool : List Symbol} {kept : Memo → Prop}

private theorem Yields.pure (a : α) : Yields kept (Pure.pure a : Build α) a :=
  fun memo holds => ⟨memo, rfl, holds⟩

private theorem Yields.bind {step : Build α} {next : α → Build β} {a : α} {b : β}
    (first : Yields kept step a) (second : Yields kept (next a) b) :
    Yields kept (step >>= next) b := by
  intro memo holds
  obtain ⟨memo₁, ran₁, holds₁⟩ := first memo holds
  obtain ⟨memo₂, ran₂, holds₂⟩ := second memo₁ holds₁
  refine ⟨memo₂, ?_, holds₂⟩
  change (step memo >>= fun r => next r.1 r.2) = _
  rw [ran₁]
  exact ran₂

theorem Yields.mapM {f : α → Build β} {as : List α} {bs : List β}
    (each : List.Forall₂ (fun a b => Yields kept (f a) b) as bs) : Yields kept (as.mapM f) bs := by
  induction each with
  | nil => exact Yields.pure []
  | cons head _ ih =>
    rw [List.mapM_cons]
    exact head.bind (ih.bind (Yields.pure _))

private theorem symbolOf_yields {symbolAt : Nat → Build Symbol} {entry : Nat} {e : RawEntry}
    {s : Symbol} {parts : List (Nat × Symbol)} (makes : e.Makes s parts)
    (found : ∀ p ∈ parts, Yields kept (symbolAt p.1) p.2) :
    Yields kept (symbolOf symbolAt entry e) s := by
  cases makes with
  | utf8 text => exact Yields.pure _
  | integer value => exact Yields.pure _
  | classRef i name =>
    have named := found _ List.mem_cons_self
    exact named.bind ((Yields.pure name).bind (Yields.pure _))
  | string i text =>
    have told := found _ List.mem_cons_self
    exact told.bind ((Yields.pure text).bind (Yields.pure _))
  | nameAndType i j name descriptor =>
    obtain ⟨named, later⟩ := List.forall_mem_cons.mp found
    have described := later _ List.mem_cons_self
    exact named.bind ((Yields.pure name).bind
      (described.bind ((Yields.pure descriptor).bind (Yields.pure _))))
  | fieldRef i j owner name descriptor =>
    obtain ⟨owned, later⟩ := List.forall_mem_cons.mp found
    have named := later _ List.mem_cons_self
    exact owned.bind ((Yields.pure owner).bind
      (named.bind ((Yields.pure (name, descriptor)).bind (Yields.pure _))))
  | methodRef i j owner name descriptor =>
    obtain ⟨owned, later⟩ := List.forall_mem_cons.mp found
    have named := later _ List.mem_cons_self
    exact owned.bind ((Yields.pure owner).bind
      (named.bind ((Yields.pure (name, descriptor)).bind (Yields.pure _))))

private theorem remembers_set {memo : Memo} {index : Nat} {s : Symbol} (place : At pool index s)
    (faithful : Remembers pool memo) :
    Remembers pool (memo.setIfInBounds (index - 1) (some s)) := by
  refine ⟨by rw [Array.size_setIfInBounds, faithful.size_eq], ?_⟩
  intro k r remembered
  by_cases here : index - 1 = k
  · subst here
    have inside : index - 1 < memo.size := by
      rw [faithful.size_eq]
      exact (List.getElem?_eq_some_iff.mp place.2).1
    rw [Array.getElem?_setIfInBounds_self_of_lt inside] at remembered
    cases remembered
    exact place.2
  · rw [Array.getElem?_setIfInBounds_ne here] at remembered
    exact faithful.found k r remembered

theorem get_bind (k : Memo → Build Symbol) (memo : Memo) :
    ((get : Build Memo) >>= k) memo = k memo memo := rfl

private theorem build_of_known {depth index : Nat} {memo : Memo}
    {e : RawEntry} {s : Symbol} (positive : 0 < index) (entry : raw[index - 1]? = some e)
    (known : memo[index - 1]? = some (some s)) :
    build raw depth index memo = .ok (s, memo) := by
  rw [build, if_neg (Nat.ne_of_gt positive)]
  simp only [entry]
  rw [get_bind]
  simp only [known]
  rfl

private theorem build_of_unknown {depth index : Nat} {memo memo' : Memo}
    {e : RawEntry} {s : Symbol} (positive : 0 < index) (entry : raw[index - 1]? = some e)
    (unknown : ¬ ∃ r, memo[index - 1]? = some (some r))
    (ran : symbolOf (build raw depth) index e memo = .ok (s, memo')) :
    build raw (depth + 1) index memo =
      .ok (s, memo'.setIfInBounds (index - 1) (some s)) := by
  rw [build, if_neg (Nat.ne_of_gt positive)]
  simp only [entry]
  rw [get_bind]
  have built : (symbolOf (build raw depth) index e memo >>= fun r =>
      Except.ok (r.1, r.2.setIfInBounds (index - 1) (some r.1))) =
        (.ok (s, memo'.setIfInBounds (index - 1) (some s)) : Except ReadError _) := by
    rw [ran]
    rfl
  rcases seen : memo[index - 1]? with _ | _ | r
  · exact built
  · exact built
  · exact absurd ⟨r, seen⟩ unknown

private theorem Describes.size_eq (described : Describes raw pool) : raw.size = pool.length := by
  rw [← Array.length_toList]
  exact List.Forall₂.length_eq described

private theorem Describes.stands (described : Describes raw pool) {k : Nat} {s : Symbol}
    (place : pool[k]? = some s) : ∃ e, raw[k]? = some e ∧ e.Stands pool s := by
  obtain ⟨inPool, rfl⟩ := List.getElem?_eq_some_iff.mp place
  have inRaw : k < raw.toList.length := by
    rw [List.Forall₂.length_eq described]
    exact inPool
  refine ⟨raw.toList.get ⟨k, inRaw⟩, ?_, (List.forall₂_iff_get.mp described).2 k inRaw inPool⟩
  rw [← Array.getElem?_toList]
  exact List.getElem?_eq_getElem inRaw

/-- Symbols at indices that the entries there make of others among them, and memories that hold
nothing else at these indices. -/
structure Supports (raw : Array RawEntry) (place : Nat → Symbol → Prop) (kept : Memo → Prop) :
    Prop where
  entry : ∀ {index s}, place index s → 0 < index ∧ ∃ e, raw[index - 1]? = some e ∧
    ∃ parts, e.Makes s parts ∧ ∀ p ∈ parts, place p.1 p.2
  remembered : ∀ {memo index s r}, kept memo → place index s →
    memo[index - 1]? = some (some r) → r = s
  stored : ∀ {memo index s}, kept memo → place index s →
    kept (memo.setIfInBounds (index - 1) (some s))

/-- Depth for every level below a symbol is enough to find it. -/
theorem Supports.build_yields {place : Nat → Symbol → Prop} (supports : Supports raw place kept)
    (depth : Nat) : ∀ (index : Nat) (s : Symbol), place index s → height s ≤ depth →
      Yields kept (build raw depth index) s := by
  induction depth with
  | zero =>
    intro index s _ low
    cases s <;> simp [height] at low
  | succ depth ih =>
    intro index s there low memo holds
    obtain ⟨positive, e, entry, parts, makes, places⟩ := supports.entry there
    -- The memory decides: a symbol that is there is the right one, else the entry is built.
    by_cases known : ∃ r, memo[index - 1]? = some (some r)
    · obtain ⟨r, remembered⟩ := known
      cases supports.remembered holds there remembered
      exact ⟨memo, build_of_known positive entry remembered, holds⟩
    · have lower : ∀ p ∈ parts, Yields kept (build raw depth p.1) p.2 := by
        intro p member
        have below := height_lt_of_makes makes p member
        exact ih p.1 p.2 (places p member) (by omega)
      obtain ⟨memo', ran, holds'⟩ := symbolOf_yields makes lower memo holds
      exact ⟨_, build_of_unknown positive entry known ran, supports.stored holds' there⟩

private theorem Describes.supports (described : Describes raw pool) :
    Supports raw (At pool) (Remembers pool) where
  entry there := by
    obtain ⟨e, entry, stands⟩ := described.stands there.2
    exact ⟨there.1, e, entry, stands.exists_makes⟩
  remembered faithful there known := by
    have agrees := faithful.found _ _ known
    rw [there.2] at agrees
    exact (Option.some.inj agrees).symm
  stored faithful there := remembers_set there faithful

private theorem height_le_maxDepth (s : Symbol) : height s ≤ maxDepth := by
  cases s <;> simp [height, maxDepth]

private theorem remembers_nothing : Remembers pool (Array.replicate pool.length none) := by
  refine ⟨Array.size_replicate, ?_⟩
  intro k s remembered
  rw [Array.getElem?_replicate] at remembered
  split_ifs at remembered
  cases remembered

private theorem forall₂_indices (described : Describes raw pool) :
    List.Forall₂ (fun index s => Yields (Remembers pool) (build raw maxDepth index) s)
      (List.range' 1 raw.size) pool := by
  rw [List.forall₂_iff_get]
  refine ⟨by simp [described.size_eq], ?_⟩
  intro k inRange inPool
  have index : (List.range' 1 raw.size).get ⟨k, inRange⟩ = k + 1 := by
    simp [Nat.add_comm]
  rw [index]
  exact described.supports.build_yields maxDepth _ _
    ⟨Nat.succ_pos k, List.getElem?_eq_getElem inPool⟩ (height_le_maxDepth _)

theorem symbols_eq_ok (described : Describes raw pool) :
    symbols raw = .ok pool := by
  obtain ⟨memo, ran, -⟩ := Yields.mapM (forall₂_indices described) _ remembers_nothing
  rw [← described.size_eq] at ran
  change Prod.fst <$> ((List.range' 1 raw.size).mapM (build raw maxDepth))
    (Array.replicate raw.size none) = _
  rw [ran]
  rfl

end

end RawPool

end JvmAssembler
