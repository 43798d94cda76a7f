import JvmAssembler.Proofs.PoolBuilding

/-!
# What the entries of a raw pool mean

An entry means the symbol that is found by substituting the entries it refers to, without a memory
and without a depth. Building gives a list of symbols exactly when every entry means the symbol at
its position, and there is such a list exactly when every reference leads to an entry with the tag
that is required of it.
-/

set_option autoImplicit false
set_option relaxedAutoImplicit false

namespace JvmAssembler

theorem exists_forall₂_of_forall_mem {α β : Type} {R : α → β → Prop} {as : List α}
    (each : ∀ a ∈ as, ∃ b, R a b) : ∃ bs, List.Forall₂ R as bs := by
  induction as with
  | nil => exact ⟨[], .nil⟩
  | cons a as ih =>
    obtain ⟨first, later⟩ := List.forall_mem_cons.mp each
    obtain ⟨b, related⟩ := first
    obtain ⟨bs, all⟩ := ih later
    exact ⟨b :: bs, .cons related all⟩

namespace RawPool

def EntryAt (raw : List RawEntry) (index : Nat) (e : RawEntry) : Prop :=
  0 < index ∧ raw[index - 1]? = some e

def HasTag (raw : List RawEntry) (index : Nat) (tag : Tag) : Prop :=
  ∃ e, EntryAt raw index e ∧ e.tag = tag

def ClassAt (raw : List RawEntry) (index : Nat) (name : Text) : Prop :=
  ∃ i, EntryAt raw index (.classRef i) ∧ EntryAt raw i.toNat (.utf8 name)

def MemberAt (raw : List RawEntry) (index : Nat) (name descriptor : Text) : Prop :=
  ∃ i j, EntryAt raw index (.nameAndType i j) ∧ EntryAt raw i.toNat (.utf8 name) ∧
    EntryAt raw j.toNat (.utf8 descriptor)

end RawPool

namespace RawEntry

open RawPool (EntryAt HasTag ClassAt MemberAt)

/-- The indices that an entry refers to, with the tags that they must lead to. -/
def references : RawEntry → List (UInt16 × Tag)
  | .utf8 _ => []
  | .integer _ => []
  | .classRef name => [(name, .utf8)]
  | .string text => [(text, .utf8)]
  | .nameAndType name descriptor => [(name, .utf8), (descriptor, .utf8)]
  | .fieldRef owner member => [(owner, .classRef), (member, .nameAndType)]
  | .methodRef owner member => [(owner, .classRef), (member, .nameAndType)]

/-- The symbol that an entry means when the entries it refers to are substituted. -/
def Means (raw : List RawEntry) : RawEntry → Symbol → Prop
  | .utf8 text, s => s = .utf8 text
  | .integer value, s => s = .integer value
  | .classRef name, s => ∃ n, EntryAt raw name.toNat (.utf8 n) ∧ s = .classRef n
  | .string text, s => ∃ n, EntryAt raw text.toNat (.utf8 n) ∧ s = .string n
  | .nameAndType name descriptor, s =>
    ∃ n d, EntryAt raw name.toNat (.utf8 n) ∧ EntryAt raw descriptor.toNat (.utf8 d) ∧
      s = .nameAndType n d
  | .fieldRef owner member, s =>
    ∃ o n d, ClassAt raw owner.toNat o ∧ MemberAt raw member.toNat n d ∧ s = .fieldRef o n d
  | .methodRef owner member, s =>
    ∃ o n d, ClassAt raw owner.toNat o ∧ MemberAt raw member.toNat n d ∧ s = .methodRef o n d

section

variable {raw : List RawEntry} {e : RawEntry}

private theorem means_utf8_iff {text : Text} : e.Means raw (.utf8 text) ↔ e = .utf8 text := by
  cases e <;> simp [Means, eq_comm]

private theorem means_classRef_iff {name : Text} :
    e.Means raw (.classRef name) ↔ ∃ i, e = .classRef i ∧ EntryAt raw i.toNat (.utf8 name) := by
  cases e <;> simp [Means]

private theorem means_nameAndType_iff {name descriptor : Text} :
    e.Means raw (.nameAndType name descriptor) ↔ ∃ i j, e = .nameAndType i j ∧
      EntryAt raw i.toNat (.utf8 name) ∧ EntryAt raw j.toNat (.utf8 descriptor) := by
  cases e with
  | nameAndType i j =>
    constructor
    · rintro ⟨n, d, named, described, same⟩
      cases same
      exact ⟨i, j, rfl, named, described⟩
    · rintro ⟨i', j', same, named, described⟩
      cases same
      exact ⟨name, descriptor, named, described, rfl⟩
  | _ => simp [Means]

private theorem eq_utf8_of_tag (tagged : e.tag = .utf8) : ∃ text, e = .utf8 text := by
  cases e <;> simp_all [RawEntry.tag, Tag.utf8, Tag.integer, Tag.classRef, Tag.string,
    Tag.nameAndType, Tag.fieldRef, Tag.methodRef]

private theorem eq_classRef_of_tag (tagged : e.tag = .classRef) : ∃ i, e = .classRef i := by
  cases e <;> simp_all [RawEntry.tag, Tag.utf8, Tag.integer, Tag.classRef, Tag.string,
    Tag.nameAndType, Tag.fieldRef, Tag.methodRef]

private theorem eq_nameAndType_of_tag (tagged : e.tag = .nameAndType) :
    ∃ i j, e = .nameAndType i j := by
  cases e <;> simp_all [RawEntry.tag, Tag.utf8, Tag.integer, Tag.classRef, Tag.string,
    Tag.nameAndType, Tag.fieldRef, Tag.methodRef]

end

end RawEntry

namespace RawPool

def WellTagged (raw : List RawEntry) : Prop :=
  ∀ e ∈ raw, ∀ r ∈ e.references, HasTag raw r.1.toNat r.2

section

variable {raw : List RawEntry} {pool : List Symbol} {index : Nat}

theorem EntryAt.mem {e : RawEntry} (place : EntryAt raw index e) : e ∈ raw :=
  List.mem_of_getElem? place.2

theorem EntryAt.unique {e e' : RawEntry} (first : EntryAt raw index e)
    (second : EntryAt raw index e') : e = e' :=
  Option.some.inj (first.2.symm.trans second.2)

theorem EntryAt.text_unique {text text' : Text} (first : EntryAt raw index (.utf8 text))
    (second : EntryAt raw index (.utf8 text')) : text = text' :=
  RawEntry.utf8.inj (first.unique second)

private theorem ClassAt.unique {name name' : Text} (first : ClassAt raw index name)
    (second : ClassAt raw index name') : name = name' := by
  obtain ⟨i, place, named⟩ := first
  obtain ⟨i', place', named'⟩ := second
  cases place.unique place'
  exact named.text_unique named'

private theorem MemberAt.unique {name name' descriptor descriptor' : Text}
    (first : MemberAt raw index name descriptor) (second : MemberAt raw index name' descriptor') :
    name = name' ∧ descriptor = descriptor' := by
  obtain ⟨i, j, place, named, described⟩ := first
  obtain ⟨i', j', place', named', described'⟩ := second
  cases place.unique place'
  exact ⟨named.text_unique named', described.text_unique described'⟩

theorem means_unique {e : RawEntry} {s s' : Symbol} (first : e.Means raw s)
    (second : e.Means raw s') : s = s' := by
  cases e with
  | utf8 text => exact first.trans second.symm
  | integer value => exact first.trans second.symm
  | classRef name =>
    obtain ⟨n, place, rfl⟩ := first
    obtain ⟨n', place', rfl⟩ := second
    rw [place.text_unique place']
  | string text =>
    obtain ⟨n, place, rfl⟩ := first
    obtain ⟨n', place', rfl⟩ := second
    rw [place.text_unique place']
  | nameAndType name descriptor =>
    obtain ⟨n, d, named, described, rfl⟩ := first
    obtain ⟨n', d', named', described', rfl⟩ := second
    rw [named.text_unique named', described.text_unique described']
  | fieldRef owner member =>
    obtain ⟨o, n, d, owned, place, rfl⟩ := first
    obtain ⟨o', n', d', owned', place', rfl⟩ := second
    obtain ⟨rfl, rfl⟩ := place.unique place'
    rw [owned.unique owned']
  | methodRef owner member =>
    obtain ⟨o, n, d, owned, place, rfl⟩ := first
    obtain ⟨o', n', d', owned', place', rfl⟩ := second
    obtain ⟨rfl, rfl⟩ := place.unique place'
    rw [owned.unique owned']

theorem exists_text_of_hasTag (tagged : HasTag raw index .utf8) :
    ∃ text, EntryAt raw index (.utf8 text) := by
  obtain ⟨e, place, tag⟩ := tagged
  obtain ⟨text, rfl⟩ := RawEntry.eq_utf8_of_tag tag
  exact ⟨text, place⟩

theorem WellTagged.exists_classAt (tagged : WellTagged raw) (owner : HasTag raw index .classRef) :
    ∃ name, ClassAt raw index name := by
  obtain ⟨e, place, tag⟩ := owner
  obtain ⟨i, rfl⟩ := RawEntry.eq_classRef_of_tag tag
  obtain ⟨name, text⟩ := exists_text_of_hasTag (tagged _ place.mem _ List.mem_cons_self)
  exact ⟨name, i, place, text⟩

private theorem WellTagged.exists_memberAt (tagged : WellTagged raw)
    (member : HasTag raw index .nameAndType) :
    ∃ name descriptor, MemberAt raw index name descriptor := by
  obtain ⟨e, place, tag⟩ := member
  obtain ⟨i, j, rfl⟩ := RawEntry.eq_nameAndType_of_tag tag
  obtain ⟨name, text⟩ := exists_text_of_hasTag (tagged _ place.mem (i, .utf8) (by
    simp [RawEntry.references]))
  obtain ⟨descriptor, text'⟩ := exists_text_of_hasTag (tagged _ place.mem (j, .utf8) (by
    simp [RawEntry.references]))
  exact ⟨name, descriptor, i, j, place, text, text'⟩

theorem WellTagged.exists_means (tagged : WellTagged raw) {e : RawEntry} (member : e ∈ raw) :
    ∃ s, e.Means raw s := by
  have right := tagged e member
  cases e with
  | utf8 text => exact ⟨_, rfl⟩
  | integer value => exact ⟨_, rfl⟩
  | classRef name =>
    obtain ⟨n, text⟩ := exists_text_of_hasTag (right _ List.mem_cons_self)
    exact ⟨_, n, text, rfl⟩
  | string text =>
    obtain ⟨n, text⟩ := exists_text_of_hasTag (right _ List.mem_cons_self)
    exact ⟨_, n, text, rfl⟩
  | nameAndType name descriptor =>
    obtain ⟨n, named⟩ := exists_text_of_hasTag (right (name, .utf8) (by simp [RawEntry.references]))
    obtain ⟨d, described⟩ :=
      exists_text_of_hasTag (right (descriptor, .utf8) (by simp [RawEntry.references]))
    exact ⟨_, n, d, named, described, rfl⟩
  | fieldRef owner part =>
    obtain ⟨o, owned⟩ := tagged.exists_classAt (right (owner, .classRef) List.mem_cons_self)
    obtain ⟨n, d, named⟩ := tagged.exists_memberAt (right (part, .nameAndType) (by
      simp [RawEntry.references]))
    exact ⟨_, o, n, d, owned, named, rfl⟩
  | methodRef owner part =>
    obtain ⟨o, owned⟩ := tagged.exists_classAt (right (owner, .classRef) List.mem_cons_self)
    obtain ⟨n, d, named⟩ := tagged.exists_memberAt (right (part, .nameAndType) (by
      simp [RawEntry.references]))
    exact ⟨_, o, n, d, owned, named, rfl⟩

theorem ClassAt.hasTag {name : Text} (place : ClassAt raw index name) :
    HasTag raw index .classRef := by
  obtain ⟨i, place, -⟩ := place
  exact ⟨_, place, rfl⟩

private theorem MemberAt.hasTag {name descriptor : Text}
    (place : MemberAt raw index name descriptor) : HasTag raw index .nameAndType := by
  obtain ⟨i, j, place, -, -⟩ := place
  exact ⟨_, place, rfl⟩

theorem hasTag_of_text {text : Text} (place : EntryAt raw index (.utf8 text)) :
    HasTag raw index .utf8 := ⟨_, place, rfl⟩

theorem hasTag_of_means {e : RawEntry} {s : Symbol} (means : e.Means raw s) :
    ∀ r ∈ e.references, HasTag raw r.1.toNat r.2 := by
  cases e with
  | utf8 text => simp [RawEntry.references]
  | integer value => simp [RawEntry.references]
  | classRef name =>
    obtain ⟨n, text, -⟩ := means
    simpa [RawEntry.references] using hasTag_of_text text
  | string text =>
    obtain ⟨n, text, -⟩ := means
    simpa [RawEntry.references] using hasTag_of_text text
  | nameAndType name descriptor =>
    obtain ⟨n, d, named, described, -⟩ := means
    simpa [RawEntry.references] using ⟨hasTag_of_text named, hasTag_of_text described⟩
  | fieldRef owner member =>
    obtain ⟨o, n, d, owned, named, -⟩ := means
    simpa [RawEntry.references] using ⟨owned.hasTag, named.hasTag⟩
  | methodRef owner member =>
    obtain ⟨o, n, d, owned, named, -⟩ := means
    simpa [RawEntry.references] using ⟨owned.hasTag, named.hasTag⟩

def Meant (raw : List RawEntry) (pool : List Symbol) : Prop :=
  List.Forall₂ (RawEntry.Means raw) raw pool

theorem exists_meant_iff : (∃ pool, Meant raw pool) ↔ WellTagged raw := by
  constructor
  · rintro ⟨pool, meant⟩
    have both := List.Forall₂.imp (fun _ _ means => And.intro (hasTag_of_means means) means) meant
    exact (List.forall₂_and_left raw pool).mp both |>.1
  · intro tagged
    exact exists_forall₂_of_forall_mem fun _ member => tagged.exists_means member

theorem Meant.at_iff (meant : Meant raw pool) {s : Symbol} :
    At pool index s ↔ ∃ e, EntryAt raw index e ∧ e.Means raw s := by
  have lengths := List.Forall₂.length_eq meant
  constructor
  · rintro ⟨positive, place⟩
    obtain ⟨inPool, rfl⟩ := List.getElem?_eq_some_iff.mp place
    have inRaw : index - 1 < raw.length := by omega
    exact ⟨_, ⟨positive, List.getElem?_eq_getElem inRaw⟩,
      (List.forall₂_iff_get.mp meant).2 _ inRaw inPool⟩
  · rintro ⟨e, ⟨positive, place⟩, means⟩
    obtain ⟨inRaw, rfl⟩ := List.getElem?_eq_some_iff.mp place
    have inPool : index - 1 < pool.length := by omega
    have here := (List.forall₂_iff_get.mp meant).2 _ inRaw inPool
    refine ⟨positive, ?_⟩
    rw [List.getElem?_eq_getElem inPool]
    exact congrArg some (means_unique here means)

theorem Meant.text_iff (meant : Meant raw pool) {text : Text} :
    At pool index (.utf8 text) ↔ EntryAt raw index (.utf8 text) := by
  rw [meant.at_iff]
  constructor
  · rintro ⟨e, place, means⟩
    rwa [RawEntry.means_utf8_iff.mp means] at place
  · intro place
    exact ⟨_, place, rfl⟩

theorem Meant.class_iff (meant : Meant raw pool) {name : Text} :
    At pool index (.classRef name) ↔ ClassAt raw index name := by
  rw [meant.at_iff]
  constructor
  · rintro ⟨e, place, means⟩
    obtain ⟨i, rfl, named⟩ := RawEntry.means_classRef_iff.mp means
    exact ⟨i, place, named⟩
  · rintro ⟨i, place, named⟩
    exact ⟨_, place, RawEntry.means_classRef_iff.mpr ⟨i, rfl, named⟩⟩

private theorem Meant.member_iff (meant : Meant raw pool) {name descriptor : Text} :
    At pool index (.nameAndType name descriptor) ↔
      MemberAt raw index name descriptor := by
  rw [meant.at_iff]
  constructor
  · rintro ⟨e, place, means⟩
    obtain ⟨i, j, rfl, named, described⟩ := RawEntry.means_nameAndType_iff.mp means
    exact ⟨i, j, place, named, described⟩
  · rintro ⟨i, j, place, named, described⟩
    exact ⟨_, place, RawEntry.means_nameAndType_iff.mpr ⟨i, j, rfl, named, described⟩⟩

private theorem Meant.stands_iff (meant : Meant raw pool) {e : RawEntry} {s : Symbol} :
    e.Stands pool s ↔ e.Means raw s := by
  cases e <;> simp only [RawEntry.Stands, RawEntry.Means, meant.text_iff, meant.class_iff,
    meant.member_iff]

private theorem Meant.describes (meant : Meant raw pool) : Describes raw.toArray pool :=
  List.Forall₂.imp (fun _ _ means => meant.stands_iff.mpr means) meant

/-- All that is remembered is what the entries mean. -/
def Faithful (raw : List RawEntry) (memo : Memo) : Prop :=
  ∀ (k : Nat) (s : Symbol), memo[k]? = some (some s) → ∃ e, raw[k]? = some e ∧ e.Means raw s

/-- A step of building that, from a faithful memory, leaves a faithful one and gives nothing but
what is expected of it. -/
def Gives {α : Type} (raw : List RawEntry) (step : Build α) (expected : α → Prop) : Prop :=
  ∀ memo a memo', Faithful raw memo → step memo = .ok (a, memo') →
    expected a ∧ Faithful raw memo'

section

variable {α β : Type} {step : Build α} {next : α → Build β} {expected : α → Prop}
  {expected' : β → Prop}

private theorem Gives.pure {a : α} (holds : expected a) :
    Gives raw (Pure.pure a : Build α) expected := by
  intro memo a' memo' faithful ran
  cases ran
  exact ⟨holds, faithful⟩

private theorem Gives.bind (first : Gives raw step expected)
    (second : ∀ a, expected a → Gives raw (next a) expected') :
    Gives raw (step >>= next) expected' := by
  intro memo b memo'' faithful ran
  change (step memo >>= fun r => next r.1 r.2) = _ at ran
  rcases started : step memo with problem | ⟨a, memo'⟩
  · rw [started] at ran
    cases ran
  · rw [started] at ran
    obtain ⟨holds, faithful'⟩ := first memo a memo' faithful started
    exact second a holds memo' b memo'' faithful' ran

private theorem Gives.throw (problem : ReadError) :
    Gives raw (throw problem : Build α) expected := by
  intro memo a memo' faithful ran
  cases ran

theorem Gives.mapM {f : α → Build β} {related : α → β → Prop} {as : List α}
    (each : ∀ a ∈ as, Gives raw (f a) (related a)) :
    Gives raw (as.mapM f) (List.Forall₂ related as) := by
  induction as with
  | nil => exact Gives.pure .nil
  | cons a as ih =>
    rw [List.mapM_cons]
    refine (each a List.mem_cons_self).bind fun b head => ?_
    refine (ih fun a' member => each a' (List.mem_cons_of_mem a member)).bind fun bs tail => ?_
    exact Gives.pure (.cons head tail)

end

section

variable {symbolAt : Nat → Build Symbol} {expected : Symbol → Prop}
  (found : ∀ i : Nat, Gives raw (symbolAt i) fun s =>
    ∃ e, EntryAt raw i e ∧ e.Means raw s)

include found

private theorem Gives.text (i : Nat) {next : Text → Build Symbol}
    (rest : ∀ text, EntryAt raw i (.utf8 text) → Gives raw (next text) expected) :
    Gives raw (symbolAt i >>= fun s => expectUtf8 i s >>= next) expected := by
  refine (found i).bind ?_
  rintro s ⟨e, place, means⟩
  cases s with
  | utf8 text =>
    rw [RawEntry.means_utf8_iff] at means
    exact rest text (means ▸ place)
  | _ => exact Gives.throw _

private theorem Gives.owner (entry : Nat) (i : Nat) {next : Text → Build Symbol}
    (rest : ∀ name, ClassAt raw i name → Gives raw (next name) expected) :
    Gives raw (symbolAt i >>= fun s => expectOwner entry i s >>= next) expected := by
  refine (found i).bind ?_
  rintro s ⟨e, place, means⟩
  cases s with
  | classRef name =>
    obtain ⟨j, rfl, named⟩ := RawEntry.means_classRef_iff.mp means
    exact rest name ⟨j, place, named⟩
  | _ => exact Gives.throw _

private theorem Gives.member (entry : Nat) (i : Nat) {next : Text × Text → Build Symbol}
    (rest : ∀ name descriptor, MemberAt raw i name descriptor →
      Gives raw (next (name, descriptor)) expected) :
    Gives raw (symbolAt i >>= fun s => expectMember entry i s >>= next) expected := by
  refine (found i).bind ?_
  rintro s ⟨e, place, means⟩
  cases s with
  | nameAndType name descriptor =>
    obtain ⟨j, k, rfl, named, described⟩ := RawEntry.means_nameAndType_iff.mp means
    exact rest name descriptor ⟨j, k, place, named, described⟩
  | _ => exact Gives.throw _

private theorem symbolOf_gives (entry : Nat) (e : RawEntry) :
    Gives raw (symbolOf symbolAt entry e) (e.Means raw) := by
  cases e with
  | utf8 text => exact Gives.pure rfl
  | integer value => exact Gives.pure rfl
  | classRef name => exact Gives.text found name.toNat fun n named => Gives.pure ⟨n, named, rfl⟩
  | string text => exact Gives.text found text.toNat fun n named => Gives.pure ⟨n, named, rfl⟩
  | nameAndType name descriptor =>
    refine Gives.text found name.toNat fun n named => ?_
    refine Gives.text found descriptor.toNat fun d described => ?_
    exact Gives.pure ⟨n, d, named, described, rfl⟩
  | fieldRef owner member =>
    refine Gives.owner found entry owner.toNat fun o owned => ?_
    refine Gives.member found entry member.toNat fun n d named => ?_
    exact Gives.pure ⟨o, n, d, owned, named, rfl⟩
  | methodRef owner member =>
    refine Gives.owner found entry owner.toNat fun o owned => ?_
    refine Gives.member found entry member.toNat fun n d named => ?_
    exact Gives.pure ⟨o, n, d, owned, named, rfl⟩

end

theorem Faithful.set {memo : Memo} (faithful : Faithful raw memo) {k : Nat} {e : RawEntry}
    {s : Symbol} (place : raw[k]? = some e) (means : e.Means raw s) :
    Faithful raw (memo.setIfInBounds k (some s)) := by
  intro j r remembered
  by_cases here : k = j
  · subst here
    rw [Array.getElem?_setIfInBounds_self] at remembered
    split_ifs at remembered
    cases remembered
    exact ⟨e, place, means⟩
  · rw [Array.getElem?_setIfInBounds_ne here] at remembered
    exact faithful j r remembered

private theorem of_made_eq_ok {step : Build Symbol} {k : Nat} {memo memo' : Memo} {s : Symbol}
    (ran : (do
      let r ← step
      modify fun memo => memo.setIfInBounds k (some r)
      Pure.pure r : Build Symbol) memo = .ok (s, memo')) :
    ∃ made, step memo = .ok (s, made) ∧ memo' = made.setIfInBounds k (some s) := by
  change (step memo >>= fun r => Except.ok (r.1, r.2.setIfInBounds k (some r.1))) = _ at ran
  rcases started : step memo with problem | ⟨r, made⟩
  · rw [started] at ran
    cases ran
  · rw [started] at ran
    cases ran
    exact ⟨made, rfl, rfl⟩

private theorem of_build_eq_ok {entries : Array RawEntry} {depth number : Nat} {memo memo' : Memo}
    {s : Symbol} (ran : build entries depth number memo = .ok (s, memo')) :
    0 < number ∧ ∃ e, entries[number - 1]? = some e ∧
      ((memo[number - 1]? = some (some s) ∧ memo' = memo) ∨
        ∃ below made, depth = below + 1 ∧
          symbolOf (build entries below) number e memo = .ok (s, made) ∧
          memo' = made.setIfInBounds (number - 1) (some s)) := by
  rcases Nat.eq_zero_or_pos number with zero | positive
  · rw [build, if_pos zero] at ran
    cases ran
  · rw [build, if_neg (Nat.ne_of_gt positive)] at ran
    rcases place : entries[number - 1]? with _ | e
    · simp only [place] at ran
      cases ran
    · simp only [place] at ran
      rw [get_bind] at ran
      refine ⟨positive, e, rfl, ?_⟩
      rcases seen : memo[number - 1]? with _ | _ | r
      · simp only [seen] at ran
        cases depth with
        | zero => cases ran
        | succ below =>
          obtain ⟨made, built, kept⟩ := of_made_eq_ok ran
          exact Or.inr ⟨below, made, rfl, built, kept⟩
      · simp only [seen] at ran
        cases depth with
        | zero => cases ran
        | succ below =>
          obtain ⟨made, built, kept⟩ := of_made_eq_ok ran
          exact Or.inr ⟨below, made, rfl, built, kept⟩
      · simp only [seen] at ran
        cases ran
        exact Or.inl ⟨rfl, rfl⟩

/-- Whatever is built at an index is what the entry there means, at any depth and from any faithful
memory. -/
theorem build_gives (raw : List RawEntry) (depth index : Nat) :
    Gives raw (build raw.toArray depth index) fun s =>
      ∃ e, EntryAt raw index e ∧ e.Means raw s := by
  induction depth generalizing index with
  | zero =>
    intro memo s memo' faithful ran
    obtain ⟨positive, e, place, ⟨remembered, rfl⟩ | ⟨below, made, more, -, -⟩⟩ := of_build_eq_ok ran
    · obtain ⟨e', place', means⟩ := faithful _ s remembered
      exact ⟨⟨e', ⟨positive, place'⟩, means⟩, faithful⟩
    · cases more
  | succ depth ih =>
    intro memo s memo' faithful ran
    obtain ⟨positive, e, place, ⟨remembered, rfl⟩ | ⟨below, made, more, built, rfl⟩⟩ :=
      of_build_eq_ok ran
    · obtain ⟨e', place', means⟩ := faithful _ s remembered
      exact ⟨⟨e', ⟨positive, place'⟩, means⟩, faithful⟩
    · cases more
      rw [List.getElem?_toArray] at place
      obtain ⟨means, faithful'⟩ := symbolOf_gives ih index e memo s made faithful built
      exact ⟨⟨e, ⟨positive, place⟩, means⟩, faithful'.set place means⟩

theorem faithful_nothing (n : Nat) : Faithful raw (Array.replicate n none) := by
  intro k s remembered
  rw [Array.getElem?_replicate] at remembered
  split_ifs at remembered
  cases remembered

theorem symbols_eq_ok_iff : symbols raw.toArray = .ok pool ↔ Meant raw pool := by
  constructor
  · intro built
    have all : Gives raw ((List.range' 1 raw.toArray.size).mapM (build raw.toArray maxDepth))
        (List.Forall₂ (fun index s => ∃ e, EntryAt raw index e ∧ e.Means raw s)
          (List.range' 1 raw.toArray.size)) :=
      Gives.mapM fun index _ => build_gives raw maxDepth index
    change Prod.fst <$> ((List.range' 1 raw.toArray.size).mapM (build raw.toArray maxDepth))
      (Array.replicate raw.toArray.size none) = _ at built
    rcases ran : ((List.range' 1 raw.toArray.size).mapM (build raw.toArray maxDepth))
      (Array.replicate raw.toArray.size none) with problem | ⟨found, memo⟩
    · rw [ran] at built
      cases built
    · rw [ran] at built
      cases built
      obtain ⟨each, -⟩ := all _ found memo (faithful_nothing _) ran
      have lengths := List.Forall₂.length_eq each
      rw [List.length_range', List.size_toArray] at lengths
      rw [Meant, List.forall₂_iff_get]
      refine ⟨lengths, ?_⟩
      intro k inRaw inPool
      have inRange : k < (List.range' 1 raw.toArray.size).length := by
        rw [List.length_range', List.size_toArray]
        exact inRaw
      obtain ⟨e, ⟨-, place⟩, means⟩ := (List.forall₂_iff_get.mp each).2 k inRange inPool
      have position : (List.range' 1 raw.toArray.size).get ⟨k, inRange⟩ - 1 = k := by simp
      rw [position, List.getElem?_eq_getElem inRaw] at place
      cases place
      exact means
  · intro meant
    exact symbols_eq_ok meant.describes

end

end RawPool

end JvmAssembler
