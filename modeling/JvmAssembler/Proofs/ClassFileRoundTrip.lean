import JvmAssembler.ClassFile.Read
import JvmAssembler.Proofs.FieldReading
import JvmAssembler.Proofs.Interning
import JvmAssembler.Proofs.ModifiedUtf8RoundTrip
import JvmAssembler.Proofs.PoolBuilding
import JvmAssembler.Proofs.WriteOutcome

/-!
# Reading undoes writing

The bytes that are written for a class are read back as that class: its version, its pool entry by
entry, and its methods with their limits and their code.
-/

set_option autoImplicit false
set_option relaxedAutoImplicit false

namespace JvmAssembler

open Reader (Takes takes_pure takes_lift takes_u2 takes_u2_of_le takes_u4 takes_take takes_many)

/-- The code that a class file holds for a method: none without instructions. -/
def CodeInfo.Records (x : PoolIndex) (m : Method) : Option CodeInfo → Prop
  | none => m.instructions = []
  | some found => m.instructions ≠ [] ∧ found.limits = m.limits ∧
    Code.encode x.lookup m.instructions = .ok found.code

/-- What a class file holds for a method, with the index of its name in a pool. -/
structure MethodInfo.Records (x : PoolIndex) (m : Method) (info : MethodInfo) : Prop where
  access : info.access = m.access
  name : info.name = m.name
  nameIndex : x.lookup (.utf8 m.name) = .ok info.nameIndex
  descriptor : info.descriptor = m.descriptor
  code : CodeInfo.Records x m info.code

namespace ClassFile

variable {t : Table} {x : PoolIndex}

private theorem at_of_lookup (resolved : t.resolve = .ok x) {s : Symbol} {i : UInt16}
    (found : x.lookup s = .ok i) : RawPool.At x.entries.toList i.toNat s := by
  have place := Table.getElem?_of_lookup resolved found
  rw [← Array.getElem?_toList] at place
  exact place

private theorem referenceFields_eq_ok {refs : List Symbol} {fields : List Field}
    (given : (refs.mapM fun r => (x.lookup r).map fun i =>
      ClassFile.u2 "pool reference" i.toNat) = .ok fields) :
    ∃ indices : List UInt16, List.Forall₂ (fun r i => x.lookup r = .ok i) refs indices ∧
      fields = indices.map fun i => ClassFile.u2 "pool reference" i.toNat := by
  have pointwise := forall₂_of_mapM_eq_ok given
  clear given
  induction pointwise with
  | nil => exact ⟨[], .nil, rfl⟩
  | cons head _ ih =>
    obtain ⟨i, found, rfl⟩ := referenceField_eq_ok head
    obtain ⟨indices, all, rfl⟩ := ih
    exact ⟨i :: indices, .cons found all, rfl⟩

private theorem eq_of_encodeAll_tagged {s : Symbol} {fields : List Field} {bytes : Bytes}
    (written : Field.encodeAll (u1 "tag" s.tag.byte.toNat :: fields) = .ok bytes) :
    bytes = s.tag.byte :: fields.flatMap Field.bytes := by
  obtain ⟨-, rfl⟩ := Field.encodeAll_eq_ok written
  have tag : (u1 "tag" s.tag.byte.toNat).bytes = [s.tag.byte] := by
    change BigEndian.bytes 1 s.tag.byte.toNat = _
    simp [BigEndian.bytes]
  rw [List.flatMap_cons, tag, List.singleton_append]

private theorem written_of_one {s r : Symbol} {fields : List Field} {bytes : Bytes}
    {make : UInt16 → RawEntry}
    (writes : ∀ i, (make i).Written (s.tag.byte :: BigEndian.bytes 2 i.toNat))
    (given : ([r].mapM fun r => (x.lookup r).map fun i => u2 "pool reference" i.toNat) = .ok fields)
    (written : Field.encodeAll (u1 "tag" s.tag.byte.toNat :: fields) = .ok bytes) :
    ∃ i, x.lookup r = .ok i ∧ (make i).Written bytes := by
  rw [eq_of_encodeAll_tagged written]
  obtain ⟨_, all, rfl⟩ := referenceFields_eq_ok given
  cases all with
  | @cons _ i _ _ found rest =>
    cases rest
    exact ⟨i, found, writes i⟩

private theorem written_of_two {s r r' : Symbol} {fields : List Field} {bytes : Bytes}
    {make : UInt16 → UInt16 → RawEntry}
    (writes : ∀ i j, (make i j).Written
      (s.tag.byte :: (BigEndian.bytes 2 i.toNat ++ BigEndian.bytes 2 j.toNat)))
    (given : ([r, r'].mapM fun r => (x.lookup r).map fun i => u2 "pool reference" i.toNat) =
      .ok fields)
    (written : Field.encodeAll (u1 "tag" s.tag.byte.toNat :: fields) = .ok bytes) :
    ∃ i j, x.lookup r = .ok i ∧ x.lookup r' = .ok j ∧ (make i j).Written bytes := by
  rw [eq_of_encodeAll_tagged written]
  obtain ⟨_, all, rfl⟩ := referenceFields_eq_ok given
  cases all with
  | @cons _ i _ _ found rest =>
    cases rest with
    | @cons _ j _ _ found' rest =>
      cases rest
      exact ⟨i, j, found, found', writes i j⟩

private theorem exists_written_of_entryBytes (resolved : t.resolve = .ok x) {s : Symbol}
    {bytes : Bytes} (written : entryBytes x s = .ok bytes) :
    ∃ e : RawEntry, e.Written bytes ∧ e.Stands x.entries.toList s := by
  obtain ⟨fields, given, written⟩ := exists_of_bind_eq_ok written
  have place : ∀ {r : Symbol} {i : UInt16}, x.lookup r = .ok i →
      RawPool.At x.entries.toList i.toNat r := at_of_lookup resolved
  cases s with
  | utf8 text =>
    rw [bodyFields] at given
    split_ifs at given with valid
    cases given
    have fit := (Field.encodeAll_eq_ok written).1 _ (List.mem_cons_of_mem _ List.mem_cons_self)
    rw [Field.fits_u2] at fit
    refine ⟨.utf8 text, ?_, rfl⟩
    have decoded := ModifiedUtf8.decode_encode_of_valid valid
    simpa [eq_of_encodeAll_tagged written, Symbol.tag] using RawEntry.Written.utf8 fit decoded
  | integer value =>
    cases given
    refine ⟨.integer value, ?_, rfl⟩
    rw [eq_of_encodeAll_tagged written]
    exact .integer value.toUInt32
  | classRef name =>
    obtain ⟨i, found, writes⟩ := written_of_one .classRef given written
    exact ⟨.classRef i, writes, name, place found, rfl⟩
  | string text =>
    obtain ⟨i, found, writes⟩ := written_of_one .string given written
    exact ⟨.string i, writes, text, place found, rfl⟩
  | nameAndType name descriptor =>
    obtain ⟨i, j, found, found', writes⟩ := written_of_two .nameAndType given written
    exact ⟨.nameAndType i j, writes, name, descriptor, place found, place found', rfl⟩
  | fieldRef owner name descriptor =>
    obtain ⟨i, j, found, found', writes⟩ := written_of_two .fieldRef given written
    exact ⟨.fieldRef i j, writes, owner, name, descriptor, place found, place found', rfl⟩
  | methodRef owner name descriptor =>
    obtain ⟨i, j, found, found', writes⟩ := written_of_two .methodRef given written
    exact ⟨.methodRef i j, writes, owner, name, descriptor, place found, place found', rfl⟩

private theorem takes_entries (resolved : t.resolve = .ok x) {entries : List Symbol}
    {pieces : List Bytes}
    (written : List.Forall₂ (fun s bytes => entryBytes x s = .ok bytes) entries pieces) :
    ∃ raw : List RawEntry,
      List.Forall₂ (fun bytes e => ∀ k, Takes (RawEntry.read k) bytes e) pieces raw ∧
        List.Forall₂ (RawEntry.Stands x.entries.toList) raw entries := by
  induction written with
  | nil => exact ⟨[], .nil, .nil⟩
  | cons head _ ih =>
    obtain ⟨e, writes, stands⟩ := exists_written_of_entryBytes resolved head
    obtain ⟨raw, allTaken, allStand⟩ := ih
    exact ⟨e :: raw, .cons (RawEntry.takes_read_of_written writes) allTaken, .cons stands allStand⟩

private theorem takes_readPool {raw : List RawEntry} {pieces : List Bytes} {pool : List Symbol}
    (small : pool.length + 1 ≤ 65535)
    (taken : List.Forall₂ (fun bytes e => ∀ k, Takes (RawEntry.read k) bytes e) pieces raw)
    (stand : List.Forall₂ (RawEntry.Stands pool) raw pool) :
    Takes readPool (BigEndian.bytes 2 (pool.length + 1) ++ pieces.flatten) pool.toArray := by
  have number := Reader.toNat_ofNat_of_le_u2 small
  have positive : UInt16.ofNat (pool.length + 1) ≠ 0 := by
    intro zero
    rw [zero] at number
    exact absurd number.symm (Nat.succ_ne_zero _)
  refine (takes_u2_of_le small).bind ?_
  rw [if_neg positive, number, Nat.add_sub_cancel, ← stand.length_eq,
    ← List.append_nil pieces.flatten]
  have built : RawPool.symbols raw.toArray = .ok pool := RawPool.symbols_eq_ok stand
  exact (takes_many taken).bind ((takes_lift built).skip (takes_pure _))

private theorem takes_poolBytes (resolved : t.resolve = .ok x) {bytes : Bytes}
    (written : poolBytes x = .ok bytes) : Takes readPool bytes x.entries := by
  obtain ⟨count, counted, written⟩ := exists_of_bind_eq_ok written
  obtain ⟨pieces, each, written⟩ := exists_of_bind_eq_ok written
  cases written
  obtain ⟨fit, rfl⟩ := Field.encodeAll_eq_ok counted
  have small : x.size + 1 ≤ 65535 := (Field.fits_u2 _ _).mp (fit _ List.mem_cons_self)
  obtain ⟨raw, taken, stand⟩ := takes_entries resolved (forall₂_of_mapM_eq_ok each)
  exact takes_readPool small taken stand

theorem symbolIn_of_lookup (resolved : t.resolve = .ok x) {s : Symbol} {i : UInt16}
    (found : x.lookup s = .ok i) : symbolIn x.entries i.toNat = some s := by
  obtain ⟨positive, place⟩ := Table.getElem?_of_lookup resolved found
  rw [symbolIn, if_neg (by omega)]
  exact place

private theorem textIn_of_lookup (resolved : t.resolve = .ok x) {text : Text} {i : UInt16}
    (found : x.lookup (.utf8 text) = .ok i) : textIn x.entries i = .ok text := by
  rw [textIn, symbolIn_of_lookup resolved found]

private theorem classNameIn_of_lookup (resolved : t.resolve = .ok x) {name : Text} {i : UInt16}
    (found : x.lookup (.classRef name) = .ok i) : classNameIn x.entries i = .ok name := by
  rw [classNameIn, symbolIn_of_lookup resolved found]

private theorem takes_skipAttributes : Takes skipAttributes (BigEndian.bytes 2 0) () := by
  rw [← List.append_nil (BigEndian.bytes 2 0)]
  exact (takes_u2 0).bind ((takes_many List.Forall₂.nil).bind_pure fun _ => ())

private def codeBody (limits : Limits) (code : Bytes) : Bytes :=
  BigEndian.bytes 2 limits.stack.toNat ++ (BigEndian.bytes 2 limits.locals.toNat ++
    (BigEndian.bytes 4 code.length ++ (code ++ (BigEndian.bytes 2 0 ++ BigEndian.bytes 2 0))))

private theorem length_codeBody (limits : Limits) (code : Bytes) :
    (codeBody limits code).length = code.length + codeOverhead := by
  simp only [codeBody, List.length_append, BigEndian.length_bytes, codeOverhead]
  omega

private theorem readCode_codeBody (limits : Limits) {code : Bytes}
    (small : code.length ≤ 4294967295) :
    readCode (codeBody limits code) = .ok (⟨limits, code⟩, []) := by
  have taken : Takes readCode (codeBody limits code) ⟨limits, code⟩ := by
    refine (takes_u2 limits.stack).bind ((takes_u2 limits.locals).bind ?_)
    refine Takes.counted_u4 small ((takes_u2 0).bind ?_)
    refine (takes_take []).skip ?_
    exact takes_skipAttributes.bind_pure fun _ => CodeInfo.mk limits code
  have whole := taken []
  rwa [List.append_nil] at whole

private theorem takes_codeAttribute {method : Text} {pool : Array Symbol} {name : UInt16}
    (named : textIn pool name = .ok codeAttribute) (limits : Limits) {code : Bytes}
    (small : code.length + codeOverhead ≤ 4294967295) :
    Takes (readMethodAttribute pool method)
      (BigEndian.bytes 2 name.toNat ++ (BigEndian.bytes 4 (code.length + codeOverhead) ++
        codeBody limits code)) (some ⟨limits, code⟩) := by
  rw [← length_codeBody limits code] at small ⊢
  have fits : code.length ≤ 4294967295 := by
    rw [length_codeBody] at small
    omega
  refine (takes_u2 name).bind ?_
  rw [← List.append_nil (_ ++ _), List.append_assoc]
  refine Takes.counted_u4 small ((takes_lift named).skip ?_)
  rw [if_pos rfl, readCode_codeBody limits fits]
  exact takes_pure _

private theorem takes_attributes (resolved : t.resolve = .ok x) {m : Method}
    {fields : List Field} (given : attributeFields x m = .ok fields)
    (fit : ∀ f ∈ fields, f.fits = true) :
    ∃ (codes : List (Option CodeInfo)) (count : UInt16) (back : Bytes),
      fields.flatMap Field.bytes = BigEndian.bytes 2 count.toNat ++ back ∧
        Takes (Reader.many count.toNat fun _ => readMethodAttribute x.entries m.name) back codes ∧
        CodeInfo.Records x m (lastCode codes) := by
  rw [attributeFields] at given
  by_cases hasCode : m.hasCode = true
  · rw [if_pos hasCode] at given
    obtain ⟨name, named, given⟩ := exists_of_bind_eq_ok given
    obtain ⟨code, encoded, given⟩ := exists_of_bind_eq_ok given
    cases given
    have small : code.length + codeOverhead ≤ 4294967295 :=
      (Field.fits_u4 _ _).mp (fit (u4 "code attribute length" (code.length + codeOverhead))
        (by simp [codeFields]))
    have taken : ∀ k : Nat, Takes (readMethodAttribute x.entries m.name) _ _ :=
      fun _ => takes_codeAttribute (textIn_of_lookup resolved named) m.limits small
    refine ⟨[some ⟨m.limits, code⟩], 1, _, ?_, takes_many (.cons taken .nil), ?_⟩
    · simp [codeFields, codeBody]
    · exact ⟨by simpa [Method.hasCode] using hasCode, rfl, encoded⟩
  · rw [if_neg hasCode] at given
    cases given
    have empty : m.instructions = [] := by simpa [Method.hasCode] using hasCode
    exact ⟨[], 0, [], rfl, takes_many .nil, empty⟩

private theorem takes_methodBytes (resolved : t.resolve = .ok x) {m : Method} {bytes : Bytes}
    (written : methodBytes x m = .ok bytes) :
    ∃ info : MethodInfo, Takes (readMethod x.entries) bytes info ∧ info.Records x m := by
  obtain ⟨name, named, written⟩ := exists_of_bind_eq_ok written
  obtain ⟨descriptor, described, written⟩ := exists_of_bind_eq_ok written
  obtain ⟨fields, given, written⟩ := exists_of_bind_eq_ok written
  obtain ⟨fit, rfl⟩ := Field.encodeAll_eq_ok written
  have fitBack : ∀ f ∈ fields, f.fits = true := by
    intro f member
    exact fit f (by simp [member])
  obtain ⟨codes, count, back, split, taken, recorded⟩ := takes_attributes resolved given fitBack
  refine ⟨⟨m.access, name, m.name, m.descriptor, lastCode codes⟩, ?_,
    ⟨rfl, rfl, named, rfl, recorded⟩⟩
  simp only [List.flatMap_cons, Field.bytes_u2]
  rw [split]
  refine (takes_u2 m.access.bits).bind ((takes_u2 name).bind ((takes_u2 descriptor).bind ?_))
  refine (takes_u2 count).bind ?_
  refine (takes_lift (textIn_of_lookup resolved named)).skip ?_
  refine (takes_lift (textIn_of_lookup resolved described)).skip ?_
  exact taken.bind_pure fun codes =>
    MethodInfo.mk ⟨m.access.bits⟩ name m.name m.descriptor (lastCode codes)

private theorem takes_methods (resolved : t.resolve = .ok x) {methods : List Method}
    {pieces : List Bytes}
    (written : List.Forall₂ (fun m bytes => methodBytes x m = .ok bytes) methods pieces) :
    ∃ infos : List MethodInfo,
      List.Forall₂ (fun bytes info => ∀ _ : Nat, Takes (readMethod x.entries) bytes info)
        pieces infos ∧ List.Forall₂ (fun m info => info.Records x m) methods infos := by
  induction written with
  | nil => exact ⟨[], .nil, .nil⟩
  | cons head _ ih =>
    obtain ⟨info, taken, recorded⟩ := takes_methodBytes resolved head
    obtain ⟨infos, allTaken, allRecorded⟩ := ih
    exact ⟨info :: infos, .cons (fun _ => taken) allTaken, .cons recorded allRecorded⟩

structure Records (v : Version) (x : PoolIndex) (c : ClassDecl) (f : ClassFile) : Prop where
  version : f.version = v
  access : f.access = c.access
  thisIndex : x.lookup (.classRef c.name) = .ok f.thisIndex
  superIndex : x.lookup (.classRef c.superName) = .ok f.superIndex
  thisName : f.thisName = c.name
  superName : f.superName = c.superName
  pool : f.pool = x.entries
  methods : List.Forall₂ (fun m info => info.Records x m) c.methods f.methods

private theorem takes_magic : Takes readMagic (BigEndian.bytes 4 magic) () := by
  have number : Takes Reader.u4 (BigEndian.bytes 4 magic) 0xCAFEBABE := takes_u4 0xCAFEBABE
  rw [← List.append_nil (BigEndian.bytes 4 magic)]
  exact number.bind (takes_pure ())

theorem takes_written (resolved : t.resolve = .ok x) {v : Version} {c : ClassDecl}
    {header pool body : Bytes} (headed : Field.encodeAll (headerFields v) = .ok header)
    (pooled : poolBytes x = .ok pool) (written : classBytes x c = .ok body) :
    ∃ f : ClassFile, Takes read (header ++ pool ++ body) f ∧ f.Records v x c := by
  obtain ⟨this, thisFound, written⟩ := exists_of_bind_eq_ok written
  obtain ⟨super, superFound, written⟩ := exists_of_bind_eq_ok written
  obtain ⟨front, fronted, written⟩ := exists_of_bind_eq_ok written
  obtain ⟨pieces, each, written⟩ := exists_of_bind_eq_ok written
  obtain ⟨back, backed, written⟩ := exists_of_bind_eq_ok written
  cases written
  obtain ⟨-, rfl⟩ := Field.encodeAll_eq_ok headed
  obtain ⟨-, rfl⟩ := Field.encodeAll_eq_ok fronted
  obtain ⟨-, rfl⟩ := Field.encodeAll_eq_ok backed
  obtain ⟨infos, taken, recorded⟩ := takes_methods resolved (forall₂_of_mapM_eq_ok each)
  refine ⟨⟨v, c.access, this, super, c.name, c.superName, x.entries, infos⟩, ?_,
    ⟨rfl, rfl, thisFound, superFound, rfl, rfl, rfl, recorded⟩⟩
  have few : c.methods.length ≤ 65535 := c.methods_length_le
  simp only [headerFields, List.flatMap_cons, List.flatMap_nil, Field.bytes_u2, Field.bytes_u4,
    List.append_assoc, List.append_nil]
  refine takes_magic.bind ((takes_u2 v.minor).bind ((takes_u2 v.major).bind ?_))
  refine (takes_poolBytes resolved pooled).bind ((takes_u2 c.access.bits).bind ?_)
  refine (takes_u2 this).bind ((takes_u2 super).bind ?_)
  refine (takes_lift (classNameIn_of_lookup resolved thisFound)).skip ?_
  refine (takes_lift (classNameIn_of_lookup resolved superFound)).skip ?_
  refine (takes_u2 0).bind ((takes_take []).skip ((takes_u2 0).bind ?_))
  refine (takes_many .nil).skip ?_
  refine (takes_u2_of_le few).bind ?_
  rw [Reader.toNat_ofNat_of_le_u2 few, recorded.length_eq]
  refine (takes_many taken).bind ?_
  exact takes_skipAttributes.bind_pure fun _ => _

private theorem indexOf?_of_lookup (resolved : t.resolve = .ok x) {f : ClassFile}
    (pool : f.pool = x.entries) {s : Symbol} {i : UInt16} (found : x.lookup s = .ok i) :
    f.indexOf? s = some i.toNat := by
  obtain ⟨ranked, index⟩ := Table.toNat_of_lookup resolved found
  obtain ⟨n, first⟩ := Option.isSome_iff_exists.mp (List.isSome_idxOf?.mpr ranked)
  have position : t.ranked.idxOf s = n := by
    rw [List.idxOf_eq_getD_idxOf?, first]
    rfl
  have entries : x.entries = t.ranked.toArray := by rw [← Table.entries_of_resolve resolved]
  rw [indexOf?, pool, entries, List.idxOf?_toArray, first, index, position]
  rfl

/-- What is written for a class is read back as that class: its version, flags and names, its pool
entry by entry and symbol by symbol, and its methods with their code. -/
theorem parse_of_write_eq_ok {v : Version} {t : Table} {c : Option ClassDecl} {bytes : Bytes}
    (written : write v t c = .ok bytes) :
    ∃ d x f, c = some d ∧ t.resolve = .ok x ∧ parse bytes = .ok f ∧ Records v x d f ∧
      (∀ i, f.symbol? i = x.at? i) ∧
      ∀ s, t.contains s = true → ∃ i, x.lookup s = .ok i ∧ f.indexOf? s = some i.toNat := by
  cases c with
  | none => cases written
  | some d =>
    obtain ⟨x, resolved, written⟩ := exists_of_bind_eq_ok written
    obtain ⟨header, headed, written⟩ := exists_of_bind_eq_ok written
    obtain ⟨pool, pooled, written⟩ := exists_of_bind_eq_ok written
    obtain ⟨body, classed, written⟩ := exists_of_bind_eq_ok written
    cases written
    obtain ⟨f, taken, recorded⟩ := takes_written resolved headed pooled classed
    have parsed : parse (header ++ pool ++ body) = .ok f := by
      have whole := taken []
      rw [List.append_nil] at whole
      rw [parse, whole]
    refine ⟨d, x, f, rfl, resolved, parsed, recorded, ?_, ?_⟩
    · intro i
      rw [symbol?, recorded.pool]
      rfl
    · intro s interned
      have found := Table.lookup_of_contains resolved interned
      exact ⟨_, found, indexOf?_of_lookup resolved recorded.pool found⟩

def greetingSymbols : List Symbol :=
  [.utf8 "Code", .utf8 "main", .utf8 "()V", .utf8 "hé", .string "hé", .utf8 "Greeting",
    .classRef "Greeting", .utf8 "java/lang/Object", .classRef "java/lang/Object"]

def greetingTable : Table := Table.empty.internAll greetingSymbols

def greeting : ClassDecl :=
  ⟨.union .isPublic .isSuper, "Greeting", "java/lang/Object",
    [⟨.union .isPublic .isStatic, "main", "()V",
      [.constant .ldcW (some (.string "hé")), .bare .pop, .bare .vreturn], ⟨1, 0⟩⟩], by decide⟩

theorem contains_greetingTable (s : Symbol) :
    greetingTable.contains s = true ↔ s ∈ greetingSymbols := by
  rw [greetingTable, Table.contains_internAll, Table.contains_empty]
  simp

private theorem greeting_texts : ∀ s ∈ greetingSymbols, (match s with
    | .utf8 text => Utf8.isValid text && (ModifiedUtf8.encode text).length ≤ 65535
    | _ => true) = true := by decide

theorem greeting_consistent : Consistent greetingTable greeting := by
  refine ⟨?_, ?_, ?_, ?_, ?_⟩
  · intro s interned r ref
    rw [contains_greetingTable] at interned ⊢
    revert s r
    decide
  · intro text interned
    have both := greeting_texts _ ((contains_greetingTable _).mp interned)
    exact (Bool.and_eq_true _ _ ▸ both).1
  · exact (contains_greetingTable _).mpr (by decide)
  · exact (contains_greetingTable _).mpr (by decide)
  · intro m member
    cases List.mem_singleton.mp member
    refine ⟨?_, ?_, fun _ => ?_, ?_⟩
    · exact (contains_greetingTable _).mpr (by decide)
    · exact (contains_greetingTable _).mpr (by decide)
    · exact (contains_greetingTable _).mpr (by decide)
    · intro symbol used
      cases List.mem_singleton.mp used
      exact ⟨_, rfl, (contains_greetingTable _).mpr (by decide)⟩

theorem greeting_fits : Fits greetingTable greeting := by
  refine ⟨?_, ?_, ?_⟩
  · have bound := Table.size_internAll_le Table.empty greetingSymbols
    exact Nat.le_trans bound (by decide)
  · intro text interned
    have both := greeting_texts _ ((contains_greetingTable _).mp interned)
    exact of_decide_eq_true (Bool.and_eq_true _ _ ▸ both).2
  · rintro m member n ⟨x, -, measured⟩
    cases List.mem_singleton.mp member
    have bound : n ≤ 5 * 3 := Code.encodedLength_le measured
    omega

theorem parse_of_write_greeting :
    ∃ bytes f, write .default greetingTable (some greeting) = .ok bytes ∧ parse bytes = .ok f ∧
      f.thisName = "Greeting" ∧ f.methods.map MethodInfo.name = [("main" : Text)] := by
  obtain ⟨bytes, written⟩ := (write_verdict .default greetingTable greeting).exists_ok_iff.mpr
    ⟨greeting_consistent, greeting_fits⟩
  obtain ⟨d, x, f, same, -, parsed, recorded, -⟩ := parse_of_write_eq_ok written
  cases same
  refine ⟨bytes, f, written, parsed, recorded.thisName, ?_⟩
  obtain ⟨info, infos, first, rest, split⟩ := List.forall₂_cons_left_iff.mp recorded.methods
  rw [split, List.forall₂_nil_left_iff.mp rest, List.map_singleton, first.name]

end ClassFile

end JvmAssembler
