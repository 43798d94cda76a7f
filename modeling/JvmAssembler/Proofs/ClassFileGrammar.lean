import JvmAssembler.ClassFile.Read
import JvmAssembler.Proofs.PoolSubstitution
import JvmAssembler.Proofs.ReaderInversion

/-!
# The grammar of class files

A layout is a class file taken apart: its numbers, its pool entries, its tables and its attributes,
each with the bytes it stands for. Bytes are read as a class file exactly when they are the bytes of
a layout whose indices lead where they must and whose code attributes start with a complete code
structure; what is read is then what the layout says.
-/

set_option autoImplicit false
set_option relaxedAutoImplicit false

namespace JvmAssembler

open Reader (Reads pure_eq_ok_iff bind_eq_ok_iff lift_eq_ok_iff fail_eq_ok_iff take_eq_ok_iff
  u1_eq_ok_iff u2_eq_ok_iff u4_eq_ok_iff many_eq_ok_iff toNat_ofNat_of_le_u2
  toNat_ofNat_of_le_u4 Takes takes_pure takes_u2 takes_u4)
open RawPool (EntryAt HasTag ClassAt Meant)

structure Counted (α : Type) where
  items : List α
  fits : items.length ≤ 65535

namespace Counted

variable {α : Type}

def bytes (bytesOf : α → Bytes) (c : Counted α) : Bytes :=
  BigEndian.bytes 2 c.items.length ++ c.items.flatMap bytesOf

def count (c : Counted α) : UInt16 := UInt16.ofNat c.items.length

private theorem toNat_count (c : Counted α) :
    c.count.toNat = c.items.length := toNat_ofNat_of_le_u2 c.fits

private theorem bytes_eq (bytesOf : α → Bytes) (c : Counted α) :
    c.bytes bytesOf = BigEndian.bytes 2 c.count.toNat ++ c.items.flatMap bytesOf := by
  rw [toNat_count, bytes]

private theorem fits_of_length {items : List α} {count : UInt16}
    (whole : items.length = count.toNat) : items.length ≤ 65535 := by
  rw [whole]
  exact Nat.le_of_lt_succ count.toNat_lt

end Counted

structure RowTable (width : Nat) where
  count : UInt16
  rows : Bytes
  whole : rows.length = width * count.toNat

def RowTable.bytes {width : Nat} (t : RowTable width) : Bytes :=
  BigEndian.bytes 2 t.count.toNat ++ t.rows

structure AttributeLayout where
  name : UInt16
  body : Bytes
  fits : body.length ≤ 4294967295

def AttributeLayout.bytes (a : AttributeLayout) : Bytes :=
  BigEndian.bytes 2 a.name.toNat ++ (BigEndian.bytes 4 a.body.length ++ a.body)

structure CodeLayout where
  limits : Limits
  code : Bytes
  fits : code.length ≤ 4294967295
  handlers : RowTable 8
  attributes : Counted AttributeLayout

def CodeLayout.bytes (c : CodeLayout) : Bytes :=
  BigEndian.bytes 2 c.limits.stack.toNat ++ (BigEndian.bytes 2 c.limits.locals.toNat ++
    (BigEndian.bytes 4 c.code.length ++ (c.code ++ (c.handlers.bytes ++
      c.attributes.bytes AttributeLayout.bytes))))

structure FieldLayout where
  head : Bytes
  whole : head.length = 6
  attributes : Counted AttributeLayout

def FieldLayout.bytes (f : FieldLayout) : Bytes :=
  f.head ++ f.attributes.bytes AttributeLayout.bytes

structure MethodLayout where
  access : UInt16
  name : UInt16
  descriptor : UInt16
  attributes : Counted AttributeLayout

def MethodLayout.bytes (m : MethodLayout) : Bytes :=
  BigEndian.bytes 2 m.access.toNat ++ (BigEndian.bytes 2 m.name.toNat ++
    (BigEndian.bytes 2 m.descriptor.toNat ++ m.attributes.bytes AttributeLayout.bytes))

structure EntryLayout where
  raw : RawEntry
  bytes : Bytes
  written : raw.Written bytes

/-- A pool: its entries behind a count that is one more than their number. -/
structure PoolLayout where
  entries : List EntryLayout
  fits : entries.length + 1 ≤ 65535

namespace PoolLayout

def bytes (p : PoolLayout) : Bytes :=
  BigEndian.bytes 2 (p.entries.length + 1) ++ p.entries.flatMap EntryLayout.bytes

def raw (p : PoolLayout) : List RawEntry := p.entries.map EntryLayout.raw

end PoolLayout

structure ClassLayout where
  version : Version
  pool : PoolLayout
  access : UInt16
  thisIndex : UInt16
  superIndex : UInt16
  interfaces : RowTable 2
  fields : Counted FieldLayout
  methods : Counted MethodLayout
  attributes : Counted AttributeLayout

def ClassLayout.bytes (l : ClassLayout) : Bytes :=
  BigEndian.bytes 4 ClassFile.magic ++ (BigEndian.bytes 2 l.version.minor.toNat ++
    (BigEndian.bytes 2 l.version.major.toNat ++ (l.pool.bytes ++
      (BigEndian.bytes 2 l.access.toNat ++ (BigEndian.bytes 2 l.thisIndex.toNat ++
        (BigEndian.bytes 2 l.superIndex.toNat ++ (l.interfaces.bytes ++
          (l.fields.bytes FieldLayout.bytes ++ (l.methods.bytes MethodLayout.bytes ++
            l.attributes.bytes AttributeLayout.bytes)))))))))

section Meaning

variable (raw : List RawEntry)

namespace AttributeLayout

def IsCode (a : AttributeLayout) : Prop :=
  EntryAt raw a.name.toNat (.utf8 ClassFile.codeAttribute)

structure WellFormed (a : AttributeLayout) : Prop where
  name : HasTag raw a.name.toNat .utf8
  code : a.IsCode raw → ∃ (c : CodeLayout) (rest : Bytes), a.body = c.bytes ++ rest

def HoldsCode (a : AttributeLayout) (info : CodeInfo) : Prop :=
  a.IsCode raw ∧
    ∃ (c : CodeLayout) (rest : Bytes), a.body = c.bytes ++ rest ∧ info = ⟨c.limits, c.code⟩

/-- The code of the last code attribute, none where there is no such attribute. -/
def LastCode (attributes : List AttributeLayout) : Option CodeInfo → Prop
  | none => ∀ a ∈ attributes, ¬ a.IsCode raw
  | some info => ∃ (front back : List AttributeLayout) (a : AttributeLayout),
      attributes = front ++ a :: back ∧ a.HoldsCode raw info ∧ ∀ b ∈ back, ¬ b.IsCode raw

end AttributeLayout

namespace MethodLayout

structure WellFormed (m : MethodLayout) : Prop where
  name : HasTag raw m.name.toNat .utf8
  descriptor : HasTag raw m.descriptor.toNat .utf8
  attributes : ∀ a ∈ m.attributes.items, a.WellFormed raw

structure Holds (m : MethodLayout) (info : MethodInfo) : Prop where
  access : info.access = ⟨m.access⟩
  nameIndex : info.nameIndex = m.name
  name : EntryAt raw m.name.toNat (.utf8 info.name)
  descriptor : EntryAt raw m.descriptor.toNat (.utf8 info.descriptor)
  code : AttributeLayout.LastCode raw m.attributes.items info.code

end MethodLayout

end Meaning

namespace ClassLayout

/-- All indices that are followed lead to entries with the required tags, and code attributes of
methods hold code. -/
structure WellFormed (l : ClassLayout) : Prop where
  pool : RawPool.WellTagged l.pool.raw
  thisIndex : HasTag l.pool.raw l.thisIndex.toNat .classRef
  superIndex : HasTag l.pool.raw l.superIndex.toNat .classRef
  methods : ∀ m ∈ l.methods.items, m.WellFormed l.pool.raw

structure Holds (l : ClassLayout) (f : ClassFile) : Prop where
  version : f.version = l.version
  access : f.access = ⟨l.access⟩
  thisIndex : f.thisIndex = l.thisIndex
  superIndex : f.superIndex = l.superIndex
  thisName : ClassAt l.pool.raw l.thisIndex.toNat f.thisName
  superName : ClassAt l.pool.raw l.superIndex.toNat f.superName
  pool : Meant l.pool.raw f.pool.toList
  methods : List.Forall₂ (MethodLayout.Holds l.pool.raw) l.methods.items f.methods

end ClassLayout

namespace ClassFile

private theorem fits_of_u4 {body : Bytes} {length : UInt32} (whole : body.length = length.toNat) :
    body.length ≤ 4294967295 := by
  rw [whole]
  exact Nat.le_of_lt_succ length.toNat_lt

private theorem reads_skipAttribute :
    Reads skipAttribute AttributeLayout.bytes fun _ _ => True := by
  intro bs a rest
  simp only [skipAttribute, bind_eq_ok_iff, u2_eq_ok_iff, u4_eq_ok_iff, take_eq_ok_iff,
    pure_eq_ok_iff]
  constructor
  · rintro ⟨name, _, rfl, length, _, rfl, body, _, ⟨whole, rfl⟩, -, rfl⟩
    refine ⟨⟨name, body, fits_of_u4 whole⟩, trivial, ?_⟩
    simp [AttributeLayout.bytes, whole]
  · rintro ⟨⟨name, body, fits⟩, -, rfl⟩
    have number := toNat_ofNat_of_le_u4 fits
    refine ⟨name, _, ?_, UInt32.ofNat body.length, _, rfl, body, rest, ⟨number.symm, rfl⟩, trivial,
      rfl⟩
    rw [AttributeLayout.bytes, number, List.append_assoc, List.append_assoc]

private theorem forall₂_units {α : Type} (things : List α) :
    List.Forall₂ (fun _ _ => True) things (things.map fun _ => ()) :=
  List.forall₂_map_right_iff.mpr (List.forall₂_same.mpr fun _ _ => trivial)

private theorem reads_skipAttributes :
    Reads skipAttributes (Counted.bytes AttributeLayout.bytes) fun _ _ => True := by
  intro bs a rest
  simp only [skipAttributes, bind_eq_ok_iff, u2_eq_ok_iff,
    many_eq_ok_iff fun _ => reads_skipAttribute, pure_eq_ok_iff]
  constructor
  · rintro ⟨count, _, rfl, _, _, ⟨attributes, whole, -, rfl⟩, -, rfl⟩
    refine ⟨⟨attributes, Counted.fits_of_length whole⟩, trivial, ?_⟩
    simp [Counted.bytes, whole]
  · rintro ⟨c, -, rfl⟩
    refine ⟨c.count, _, ?_, _, rest, ⟨c.items, c.toNat_count.symm, forall₂_units c.items, rfl⟩,
      trivial, rfl⟩
    rw [c.bytes_eq, List.append_assoc]

private theorem reads_skipField : Reads skipField FieldLayout.bytes fun _ _ => True := by
  intro bs a rest
  simp only [skipField, bind_eq_ok_iff, take_eq_ok_iff, reads_skipAttributes.eq_ok_iff]
  constructor
  · rintro ⟨head, _, ⟨whole, rfl⟩, attributes, -, rfl⟩
    refine ⟨⟨head, whole, attributes⟩, trivial, ?_⟩
    rw [FieldLayout.bytes, List.append_assoc]
  · rintro ⟨⟨head, whole, attributes⟩, -, rfl⟩
    refine ⟨head, _, ⟨whole, ?_⟩, attributes, trivial, rfl⟩
    rw [FieldLayout.bytes, List.append_assoc]

private theorem reads_readCode :
    Reads readCode CodeLayout.bytes fun c info => info = ⟨c.limits, c.code⟩ := by
  intro bs info rest
  simp only [readCode, bind_eq_ok_iff, u2_eq_ok_iff, u4_eq_ok_iff, take_eq_ok_iff,
    reads_skipAttributes.eq_ok_iff, pure_eq_ok_iff]
  constructor
  · rintro ⟨stack, _, rfl, locals, _, rfl, length, _, rfl, code, _, ⟨whole, rfl⟩, count, _, rfl,
      rows, _, ⟨complete, rfl⟩, -, _, ⟨attributes, -, rfl⟩, rfl, rfl⟩
    refine ⟨⟨⟨stack, locals⟩, code, fits_of_u4 whole, ⟨count, rows, complete⟩, attributes⟩, rfl, ?_⟩
    simp [CodeLayout.bytes, RowTable.bytes, whole]
  · rintro ⟨⟨⟨stack, locals⟩, code, fits, ⟨count, rows, complete⟩, attributes⟩, rfl, rfl⟩
    have number := toNat_ofNat_of_le_u4 fits
    refine ⟨stack, _, ?_, locals, _, rfl, UInt32.ofNat code.length, _, rfl, code, _,
      ⟨number.symm, rfl⟩, count, _, rfl, rows, _, ⟨complete, rfl⟩, (), rest,
      ⟨attributes, trivial, rfl⟩, rfl, rfl⟩
    simp [CodeLayout.bytes, RowTable.bytes, number]

private theorem readBody_eq_ok {entry : Nat} {tag : Tag} {e : RawEntry} {bs rest : Bytes}
    (given : RawEntry.readBody entry tag bs = .ok (e, rest)) :
    ∃ body, e.Written (tag.byte :: body) ∧ bs = body ++ rest := by
  unfold RawEntry.readBody at given
  split_ifs at given with utf8 integer classRef string nameAndType fieldRef methodRef
  · subst utf8
    simp only [bind_eq_ok_iff, u2_eq_ok_iff, take_eq_ok_iff] at given
    obtain ⟨length, _, rfl, body, _, ⟨whole, rfl⟩, found⟩ := given
    rcases decoded : ModifiedUtf8.decode body with problem | text
    · rw [decoded] at found
      exact (fail_eq_ok_iff.mp found).elim
    · rw [decoded] at found
      obtain ⟨rfl, rfl⟩ := pure_eq_ok_iff.mp found
      refine ⟨BigEndian.bytes 2 body.length ++ body, ?_, ?_⟩
      · exact .utf8 (Counted.fits_of_length whole) decoded
      · rw [whole, List.append_assoc]
  · subst integer
    simp only [bind_eq_ok_iff, u4_eq_ok_iff, pure_eq_ok_iff] at given
    obtain ⟨number, _, rfl, rfl, rfl⟩ := given
    exact ⟨_, .integer number, rfl⟩
  · subst classRef
    simp only [bind_eq_ok_iff, u2_eq_ok_iff, pure_eq_ok_iff] at given
    obtain ⟨name, _, rfl, rfl, rfl⟩ := given
    exact ⟨_, .classRef name, rfl⟩
  · subst string
    simp only [bind_eq_ok_iff, u2_eq_ok_iff, pure_eq_ok_iff] at given
    obtain ⟨text, _, rfl, rfl, rfl⟩ := given
    exact ⟨_, .string text, rfl⟩
  · subst nameAndType
    simp only [bind_eq_ok_iff, u2_eq_ok_iff, pure_eq_ok_iff] at given
    obtain ⟨name, _, rfl, descriptor, _, rfl, rfl, rfl⟩ := given
    exact ⟨_, .nameAndType name descriptor, (List.append_assoc _ _ _).symm⟩
  · subst fieldRef
    simp only [bind_eq_ok_iff, u2_eq_ok_iff, pure_eq_ok_iff] at given
    obtain ⟨owner, _, rfl, member, _, rfl, rfl, rfl⟩ := given
    exact ⟨_, .fieldRef owner member, (List.append_assoc _ _ _).symm⟩
  · subst methodRef
    simp only [bind_eq_ok_iff, u2_eq_ok_iff, pure_eq_ok_iff] at given
    obtain ⟨owner, _, rfl, member, _, rfl, rfl, rfl⟩ := given
    exact ⟨_, .methodRef owner member, (List.append_assoc _ _ _).symm⟩
  · exact (fail_eq_ok_iff.mp given).elim

private theorem reads_entry (entry : Nat) :
    Reads (RawEntry.read entry) EntryLayout.bytes fun l e => l.raw = e := by
  intro bs e rest
  constructor
  · intro given
    obtain ⟨tag, _, found, given⟩ := bind_eq_ok_iff.mp given
    cases u1_eq_ok_iff.mp found
    obtain ⟨body, written, rfl⟩ := readBody_eq_ok given
    exact ⟨⟨e, tag :: body, written⟩, rfl, rfl⟩
  · rintro ⟨⟨e, bytes, written⟩, rfl, rfl⟩
    exact RawEntry.takes_read_of_written written entry rest

private theorem reads_readPool :
    Reads readPool PoolLayout.bytes fun p pool => Meant p.raw pool.toList := by
  intro bs pool rest
  constructor
  · intro given
    obtain ⟨count, _, found, after⟩ := bind_eq_ok_iff.mp given
    cases u2_eq_ok_iff.mp found
    split_ifs at after with zero
    · exact (fail_eq_ok_iff.mp after).elim
    simp only [bind_eq_ok_iff, many_eq_ok_iff reads_entry, lift_eq_ok_iff, pure_eq_ok_iff] at after
    obtain ⟨raw, _, ⟨entries, whole, each, rfl⟩, symbols, _, ⟨built, rfl⟩, rfl, rfl⟩ := after
    have positive : 0 < count.toNat := by
      refine Nat.pos_of_ne_zero fun same => zero ?_
      exact UInt16.toNat_inj.mp same
    have count_eq : entries.length + 1 = count.toNat := by omega
    have raw_eq : entries.map EntryLayout.raw = raw :=
      List.forall₂_eq_eq_eq ▸ List.forall₂_map_left_iff.mpr each
    have fits : entries.length + 1 ≤ 65535 := by
      rw [count_eq]
      exact Nat.le_of_lt_succ count.toNat_lt
    refine ⟨⟨entries, fits⟩, ?_, ?_⟩
    · subst raw_eq
      exact RawPool.symbols_eq_ok_iff.mp built
    · simp [PoolLayout.bytes, count_eq]
  · rintro ⟨⟨entries, fits⟩, meant, rfl⟩
    have number : (UInt16.ofNat (entries.length + 1)).toNat = entries.length + 1 :=
      toNat_ofNat_of_le_u2 fits
    refine bind_eq_ok_iff.mpr ⟨UInt16.ofNat (entries.length + 1),
      entries.flatMap EntryLayout.bytes ++ rest, ?_, ?_⟩
    · rw [u2_eq_ok_iff, number, PoolLayout.bytes, List.append_assoc]
    have positive : UInt16.ofNat (entries.length + 1) ≠ 0 := by
      intro zero
      rw [zero] at number
      cases number
    rw [if_neg positive]
    simp only [bind_eq_ok_iff, many_eq_ok_iff reads_entry, lift_eq_ok_iff, pure_eq_ok_iff]
    refine ⟨entries.map EntryLayout.raw, rest, ⟨entries, ?_, ?_, rfl⟩, pool.toList, rest,
      ⟨RawPool.symbols_eq_ok_iff.mpr meant, rfl⟩, rfl, rfl⟩
    · rw [number, Nat.add_sub_cancel]
    · exact List.forall₂_map_right_iff.mpr (List.forall₂_same.mpr fun _ _ => rfl)

private theorem symbolIn_eq_some_iff {pool : Array Symbol} {i : Nat} {s : Symbol} :
    symbolIn pool i = some s ↔ RawPool.At pool.toList i s := by
  rw [symbolIn, RawPool.At, Array.getElem?_toList, Int.toNat_natCast]
  split_ifs with low
  · constructor
    · intro given
      cases given
    · intro place
      omega
  · constructor
    · intro place
      exact ⟨by omega, place⟩
    · exact fun place => place.2

private theorem textIn_eq_ok_iff {pool : Array Symbol} {i : UInt16} {text : Text} :
    textIn pool i = .ok text ↔ RawPool.At pool.toList i.toNat (.utf8 text) := by
  rw [← symbolIn_eq_some_iff, textIn]
  rcases symbolIn pool i.toNat with _ | s
  · simp
  · cases s <;> simp

private theorem classNameIn_eq_ok_iff {pool : Array Symbol} {i : UInt16} {name : Text} :
    classNameIn pool i = .ok name ↔ RawPool.At pool.toList i.toNat (.classRef name) := by
  rw [← symbolIn_eq_some_iff, classNameIn]
  rcases symbolIn pool i.toNat with _ | s
  · simp
  · cases s <;> simp

end ClassFile

section Attributes

variable {raw : List RawEntry} {attributes : List AttributeLayout}

namespace AttributeLayout

variable {a : AttributeLayout}

/-- What reading an attribute of a method gives: its code, or nothing where it is another one. -/
def Gives (raw : List RawEntry) (a : AttributeLayout) : Option CodeInfo → Prop
  | none => HasTag raw a.name.toNat .utf8 ∧ ¬ a.IsCode raw
  | some info => a.HoldsCode raw info

private theorem Gives.wellFormed {code : Option CodeInfo} (gives : a.Gives raw code) :
    a.WellFormed raw := by
  cases code with
  | none => exact ⟨gives.1, fun isCode => absurd isCode gives.2⟩
  | some info =>
    obtain ⟨isCode, c, rest, body, -⟩ := gives
    exact ⟨RawPool.hasTag_of_text isCode, fun _ => ⟨c, rest, body⟩⟩

private theorem WellFormed.exists_gives (formed : a.WellFormed raw) : ∃ code, a.Gives raw code := by
  by_cases isCode : a.IsCode raw
  · obtain ⟨c, rest, body⟩ := formed.code isCode
    exact ⟨some ⟨c.limits, c.code⟩, isCode, c, rest, body, rfl⟩
  · exact ⟨none, formed.name, isCode⟩

private theorem HoldsCode.unique {info info' : CodeInfo} (first : a.HoldsCode raw info)
    (second : a.HoldsCode raw info') : info = info' := by
  obtain ⟨-, c, rest, body, same⟩ := first
  obtain ⟨-, c', rest', body', same'⟩ := second
  have read := ClassFile.reads_readCode.eq_ok_iff.mpr ⟨c, same, body⟩
  have read' := ClassFile.reads_readCode.eq_ok_iff.mpr ⟨c', same', body'⟩
  rw [read] at read'
  cases read'
  rfl

end AttributeLayout

open AttributeLayout (Gives LastCode)

namespace ClassFile

private theorem lastCode_cons (code : Option CodeInfo) (codes : List (Option CodeInfo)) :
    lastCode (code :: codes) = (lastCode codes).or code := by
  have from_any : ∀ start : Option CodeInfo,
      codes.foldl (fun last code => code.or last) start = (lastCode codes).or start := by
    induction codes with
    | nil => exact fun _ => rfl
    | cons code codes ih =>
      intro start
      rw [lastCode, List.foldl_cons, List.foldl_cons, ih, ih (code.or none), Option.or_none,
        Option.or_assoc]
  rw [lastCode, List.foldl_cons, from_any, Option.or_none]

private theorem lastCode_of_forall₂ {codes : List (Option CodeInfo)}
    (gives : List.Forall₂ (Gives raw) attributes codes) :
    LastCode raw attributes (lastCode codes) := by
  induction gives with
  | nil =>
    intro a member
    cases member
  | @cons a code attributes codes head _ ih =>
    rw [lastCode_cons]
    rcases last : lastCode codes with _ | info
    · rw [last] at ih
      cases code with
      | none =>
        intro b member
        rcases List.mem_cons.mp member with rfl | later
        · exact head.2
        · exact ih b later
      | some own => exact ⟨[], attributes, a, rfl, head, ih⟩
    · rw [last] at ih
      obtain ⟨front, back, b, rfl, holds, later⟩ := ih
      exact ⟨a :: front, back, b, rfl, holds, later⟩

private theorem lastCode_of_no_code {codes : List (Option CodeInfo)}
    (gives : List.Forall₂ (Gives raw) attributes codes)
    (noCode : ∀ a ∈ attributes, ¬ a.IsCode raw) : lastCode codes = none := by
  induction gives with
  | nil => rfl
  | @cons a code attributes codes head _ ih =>
    rw [lastCode_cons, ih fun b member => noCode b (List.mem_cons_of_mem a member)]
    cases code with
    | none => rfl
    | some info => exact absurd head.1 (noCode a List.mem_cons_self)

private theorem lastCode_eq_of_lastCode {codes : List (Option CodeInfo)} {code : Option CodeInfo}
    (gives : List.Forall₂ (Gives raw) attributes codes) (last : LastCode raw attributes code) :
    lastCode codes = code := by
  cases code with
  | none => exact lastCode_of_no_code gives last
  | some info =>
    obtain ⟨front, back, a, rfl, holds, later⟩ := last
    -- By what stands in front of the last code attribute; nothing there can win over it.
    induction front generalizing codes with
    | nil =>
      obtain _ | ⟨head, rest⟩ := gives
      rw [lastCode_cons, lastCode_of_no_code rest later]
      rename_i code _
      cases code with
      | none => exact absurd holds.1 head.2
      | some own => exact congrArg some (AttributeLayout.HoldsCode.unique head holds)
    | cons b front ih =>
      obtain _ | ⟨-, rest⟩ := gives
      rw [lastCode_cons, ih rest]
      rfl

end ClassFile

private theorem MethodLayout.WellFormed.exists_holds {m : MethodLayout}
    (formed : m.WellFormed raw) : ∃ info : MethodInfo, m.Holds raw info := by
  obtain ⟨name, named⟩ := RawPool.exists_text_of_hasTag formed.name
  obtain ⟨descriptor, described⟩ := RawPool.exists_text_of_hasTag formed.descriptor
  obtain ⟨codes, gives⟩ := exists_forall₂_of_forall_mem fun a member =>
    (formed.attributes a member).exists_gives
  exact ⟨⟨⟨m.access⟩, m.name, name, descriptor, ClassFile.lastCode codes⟩, rfl, rfl, named,
    described, ClassFile.lastCode_of_forall₂ gives⟩

end Attributes

namespace ClassFile

section

variable {raw : List RawEntry} {pool : Array Symbol} (meant : Meant raw pool.toList)
include meant

private theorem reads_readMethodAttribute (method : Text) :
    Reads (readMethodAttribute pool method) AttributeLayout.bytes (AttributeLayout.Gives raw) := by
  intro bs code rest
  simp only [readMethodAttribute, bind_eq_ok_iff, u2_eq_ok_iff, u4_eq_ok_iff, take_eq_ok_iff,
    lift_eq_ok_iff, textIn_eq_ok_iff, meant.text_iff]
  constructor
  · rintro ⟨nameIndex, _, rfl, length, _, rfl, body, after, ⟨whole, rfl⟩, name, _, ⟨place, rfl⟩,
      found⟩
    have outcome : AttributeLayout.Gives raw ⟨nameIndex, body, fits_of_u4 whole⟩ code ∧
        after = rest := by
      split_ifs at found with isCode
      · subst isCode
        rcases inside : readCode body with problem | ⟨info, left⟩
        · rw [inside] at found
          exact (fail_eq_ok_iff.mp found).elim
        · rw [inside] at found
          obtain ⟨rfl, rfl⟩ := pure_eq_ok_iff.mp found
          obtain ⟨c, same, body_eq⟩ := reads_readCode.eq_ok_iff.mp inside
          exact ⟨⟨place, c, left, body_eq, same⟩, rfl⟩
      · obtain ⟨rfl, rfl⟩ := pure_eq_ok_iff.mp found
        exact ⟨⟨RawPool.hasTag_of_text place, fun other => isCode (place.text_unique other)⟩, rfl⟩
    obtain ⟨gives, rfl⟩ := outcome
    exact ⟨_, gives, by simp [AttributeLayout.bytes, whole]⟩
  · rintro ⟨⟨nameIndex, body, fits⟩, gives, rfl⟩
    have number := toNat_ofNat_of_le_u4 fits
    have bytes_eq : (⟨nameIndex, body, fits⟩ : AttributeLayout).bytes ++ rest =
        BigEndian.bytes 2 nameIndex.toNat ++
          (BigEndian.bytes 4 (UInt32.ofNat body.length).toNat ++ (body ++ rest)) := by
      simp [AttributeLayout.bytes, number]
    obtain ⟨name, place⟩ := RawPool.exists_text_of_hasTag gives.wellFormed.name
    refine ⟨nameIndex, _, bytes_eq, UInt32.ofNat body.length, _, rfl, body, rest,
      ⟨number.symm, rfl⟩, name, rest, ⟨place, rfl⟩, ?_⟩
    cases code with
    | none =>
      have isOther : name ≠ codeAttribute := by
        rintro rfl
        exact gives.2 place
      rw [if_neg isOther]
      rfl
    | some info =>
      obtain ⟨isCode, c, left, body_eq, same⟩ := gives
      rw [if_pos (place.text_unique isCode), reads_readCode.eq_ok_iff.mpr ⟨c, same, body_eq⟩]
      rfl

private theorem reads_readMethod :
    Reads (readMethod pool) MethodLayout.bytes fun m info =>
      m.WellFormed raw ∧ m.Holds raw info := by
  intro bs info rest
  simp only [readMethod, bind_eq_ok_iff, u2_eq_ok_iff, lift_eq_ok_iff, textIn_eq_ok_iff,
    meant.text_iff, many_eq_ok_iff fun _ => reads_readMethodAttribute meant _, pure_eq_ok_iff]
  constructor
  · rintro ⟨access, _, rfl, nameIndex, _, rfl, descriptorIndex, _, rfl, count, _, rfl, name, _,
      ⟨named, rfl⟩, descriptor, _, ⟨described, rfl⟩, codes, _, ⟨attributes, whole, gives, rfl⟩, rfl,
      rfl⟩
    refine ⟨⟨access, nameIndex, descriptorIndex, attributes, Counted.fits_of_length whole⟩,
      ⟨⟨RawPool.hasTag_of_text named, RawPool.hasTag_of_text described, ?_⟩,
        ⟨rfl, rfl, named, described, lastCode_of_forall₂ gives⟩⟩, ?_⟩
    · have both := gives.imp fun _ _ given => And.intro given.wellFormed given
      exact ((List.forall₂_and_left _ _).mp both).1
    · simp [MethodLayout.bytes, Counted.bytes, whole]
  · rintro ⟨m, ⟨formed, holds⟩, rfl⟩
    obtain ⟨codes, gives⟩ := exists_forall₂_of_forall_mem fun a member =>
      (formed.attributes a member).exists_gives
    refine ⟨m.access, _, ?_, m.name, _, rfl, m.descriptor, _, rfl, m.attributes.count, _, rfl,
      info.name, _, ⟨holds.name, rfl⟩, info.descriptor, _, ⟨holds.descriptor, rfl⟩, codes, rest,
      ⟨m.attributes.items, m.attributes.toNat_count.symm, gives, rfl⟩, ?_, rfl⟩
    · simp [MethodLayout.bytes, Counted.bytes_eq]
    · rw [lastCode_eq_of_lastCode gives holds.code, ← holds.access, ← holds.nameIndex]

end

private theorem readMagic_eq_ok_iff {bs rest : Bytes} {a : Unit} :
    readMagic bs = .ok (a, rest) ↔ bs = BigEndian.bytes 4 magic ++ rest := by
  simp only [readMagic, bind_eq_ok_iff, u4_eq_ok_iff]
  constructor
  · rintro ⟨found, _, rfl, same⟩
    split_ifs at same with isMagic
    · rw [isMagic, (pure_eq_ok_iff.mp same).2]
    · exact (fail_eq_ok_iff.mp same).elim
  · rintro rfl
    exact ⟨UInt32.ofNat magic, rest, rfl, rfl⟩

theorem reads_read :
    Reads read ClassLayout.bytes fun l f => l.WellFormed ∧ l.Holds f := by
  intro bs f rest
  simp only [read, bind_eq_ok_iff, readMagic_eq_ok_iff, u2_eq_ok_iff, reads_readPool.eq_ok_iff,
    lift_eq_ok_iff, classNameIn_eq_ok_iff, take_eq_ok_iff, many_eq_ok_iff fun _ => reads_skipField,
    reads_skipAttributes.eq_ok_iff, pure_eq_ok_iff]
  constructor
  · rintro ⟨_, _, _, minor, _, _, major, _, _, symbols, _, ⟨pool, meant, _⟩, access, _, _,
      thisIndex, _, _, superIndex, _, _, thisName, _, ⟨thisPlace, _⟩, superName, _,
      ⟨superPlace, _⟩, interfaceCount, _, _, interfaces, _, ⟨complete, _⟩, fieldCount, _, _,
      _, _, ⟨fields, fieldsWhole, -, _⟩, methodCount, _, _, infos, _, found, _, _,
      ⟨attributes, -, _⟩, _, _⟩
    subst_vars
    -- Methods are read against the pool, so they are taken apart only once its meaning is known.
    obtain ⟨methods, methodsWhole, each, rfl⟩ :=
      (many_eq_ok_iff fun _ => reads_readMethod meant).mp found
    obtain ⟨formed, holds⟩ := (List.forall₂_and_left _ _).mp each
    have thisClass := meant.class_iff.mp thisPlace
    have superClass := meant.class_iff.mp superPlace
    refine ⟨⟨⟨major, minor⟩, pool, access, thisIndex, superIndex,
      ⟨interfaceCount, interfaces, complete⟩, ⟨fields, Counted.fits_of_length fieldsWhole⟩,
      ⟨methods, Counted.fits_of_length methodsWhole⟩, attributes⟩, ⟨?_, ?_⟩, ?_⟩
    · refine ⟨RawPool.exists_meant_iff.mp ⟨_, meant⟩, thisClass.hasTag, superClass.hasTag, ?_⟩
      exact formed
    · exact ⟨rfl, rfl, rfl, rfl, thisClass, superClass, meant, holds⟩
    · simp [ClassLayout.bytes, RowTable.bytes, Counted.bytes, fieldsWhole, methodsWhole]
  · rintro ⟨l, ⟨formed, holds⟩, rfl⟩
    have each := (List.forall₂_and_left _ _).mpr ⟨formed.methods, holds.methods⟩
    have methods : ∀ after, Reader.many l.methods.count.toNat (fun _ => readMethod f.pool)
        (l.methods.items.flatMap MethodLayout.bytes ++ after) = .ok (f.methods, after) := by
      intro after
      exact (many_eq_ok_iff fun _ => reads_readMethod holds.pool).mpr
        ⟨l.methods.items, l.methods.toNat_count.symm, each, rfl⟩
    refine ⟨(), _, ?_, l.version.minor, _, rfl, l.version.major, _, rfl, f.pool, _,
      ⟨l.pool, holds.pool, rfl⟩, l.access, _, rfl, l.thisIndex, _, rfl, l.superIndex, _, rfl,
      f.thisName, _, ⟨holds.pool.class_iff.mpr holds.thisName, rfl⟩,
      f.superName, _, ⟨holds.pool.class_iff.mpr holds.superName, rfl⟩,
      l.interfaces.count, _, rfl, l.interfaces.rows, _, ⟨l.interfaces.whole, rfl⟩,
      l.fields.count, _, rfl, _, _,
      ⟨l.fields.items, l.fields.toNat_count.symm, forall₂_units l.fields.items, rfl⟩,
      l.methods.count, _, rfl, f.methods, _, methods _, (), rest, ⟨l.attributes, trivial, rfl⟩, ?_,
      rfl⟩
    · simp [ClassLayout.bytes, RowTable.bytes, Counted.bytes_eq]
    · rw [← holds.access, ← holds.thisIndex, ← holds.superIndex, ← holds.version]

theorem parse_eq_ok_iff {bytes : Bytes} {f : ClassFile} :
    parse bytes = .ok f ↔ read bytes = .ok (f, []) := by
  rw [parse]
  rcases read bytes with problem | ⟨found, _ | ⟨b, rest⟩⟩ <;> simp

private theorem exists_holds {l : ClassLayout} (formed : l.WellFormed) :
    ∃ f : ClassFile, l.Holds f := by
  obtain ⟨pool, meant⟩ := RawPool.exists_meant_iff.mpr formed.pool
  obtain ⟨thisName, thisClass⟩ := formed.pool.exists_classAt formed.thisIndex
  obtain ⟨superName, superClass⟩ := formed.pool.exists_classAt formed.superIndex
  obtain ⟨methods, each⟩ :=
    exists_forall₂_of_forall_mem fun m member => (formed.methods m member).exists_holds
  exact ⟨⟨l.version, ⟨l.access⟩, l.thisIndex, l.superIndex, thisName, superName, pool.toArray,
    methods⟩, rfl, rfl, rfl, rfl, thisClass, superClass, meant, each⟩

/-- Bytes are read exactly when they are those of a well-formed layout, and every such layout says
what is read. -/
theorem parse_accepts_exactly_layouts (bytes : Bytes) :
    ((∃ f, parse bytes = .ok f) ↔ ∃ l : ClassLayout, l.WellFormed ∧ l.bytes = bytes) ∧
      ∀ l : ClassLayout, l.WellFormed → l.bytes = bytes →
        ∃ f, parse bytes = .ok f ∧ l.Holds f := by
  have accepted : ∀ l : ClassLayout, l.WellFormed → l.bytes = bytes →
      ∃ f, parse bytes = .ok f ∧ l.Holds f := by
    rintro l formed rfl
    obtain ⟨f, holds⟩ := exists_holds formed
    refine ⟨f, parse_eq_ok_iff.mpr ?_, holds⟩
    exact reads_read.eq_ok_iff.mpr ⟨l, ⟨formed, holds⟩, (List.append_nil _).symm⟩
  refine ⟨⟨?_, ?_⟩, accepted⟩
  · rintro ⟨f, parsed⟩
    obtain ⟨l, ⟨formed, -⟩, whole⟩ := reads_read.eq_ok_iff.mp (parse_eq_ok_iff.mp parsed)
    rw [List.append_nil] at whole
    exact ⟨l, formed, whole.symm⟩
  · rintro ⟨l, formed, whole⟩
    obtain ⟨f, parsed, -⟩ := accepted l formed whole
    exact ⟨f, parsed⟩

end ClassFile

end JvmAssembler
