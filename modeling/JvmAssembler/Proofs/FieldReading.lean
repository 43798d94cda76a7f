import Mathlib.Algebra.Group.Nat.Defs
import Mathlib.Data.List.Forall2
import Mathlib.Data.List.Induction
import JvmAssembler.ClassFile.RawPool

/-!
# What readers take

A reader takes some bytes for a value when it does so in front of any other bytes. Readers that run
one after the other take their bytes one after the other, so what a reader undoes follows from what
its parts undo. Entries of a constant pool are the first that are read so.
-/

set_option autoImplicit false
set_option relaxedAutoImplicit false

namespace JvmAssembler

namespace BigEndian

private theorem value_append (bs : Bytes) (b : UInt8) :
    value (bs ++ [b]) = value bs * 256 + b.toNat := by
  rw [value, List.foldl_append]
  rfl

theorem length_bytes (width n : Nat) : (bytes width n).length = width := by
  induction width generalizing n with
  | zero => rfl
  | succ width ih => rw [bytes, List.length_append, ih, List.length_singleton]

theorem value_bytes (width : Nat) {n : Nat} (small : n < 256 ^ width) :
    value (bytes width n) = n := by
  induction width generalizing n with
  | zero =>
    rw [Nat.pow_zero] at small
    have zero : n = 0 := by omega
    rw [zero]
    rfl
  | succ width ih =>
    have high : n / 256 < 256 ^ width := by
      rw [Nat.pow_succ] at small
      exact Nat.div_lt_of_lt_mul (by omega)
    rw [bytes, value_append, ih high, Nat.toUInt8, UInt8.toNat_ofNat']
    omega

theorem value_lt (bs : Bytes) : value bs < 256 ^ bs.length := by
  induction bs using List.reverseRecOn with
  | nil => decide
  | append_singleton bs b ih =>
    have small := b.toNat_lt
    rw [value_append, List.length_append, List.length_singleton, Nat.pow_succ]
    omega

theorem bytes_value (bs : Bytes) : bytes bs.length (value bs) = bs := by
  induction bs using List.reverseRecOn with
  | nil => rfl
  | append_singleton bs b ih =>
    have small := b.toNat_lt
    have high : (value bs * 256 + b.toNat) / 256 = value bs := by omega
    have low : (value bs * 256 + b.toNat).toUInt8 = b := by
      apply UInt8.toNat_inj.mp
      rw [Nat.toUInt8, UInt8.toNat_ofNat']
      omega
    rw [value_append, List.length_append, List.length_singleton, bytes, high, low, ih]

theorem bytes_eq_iff {width n : Nat} (small : n < 256 ^ width) {bs : Bytes}
    (whole : bs.length = width) : bytes width n = bs ↔ value bs = n := by
  constructor
  · intro written
    rw [← written]
    exact value_bytes width small
  · intro number
    rw [← number, ← whole]
    exact bytes_value bs

end BigEndian

namespace Reader

/-- The reader takes exactly these bytes, for this value, whatever follows them. -/
def Takes {α : Type} (r : Reader α) (bytes : Bytes) (a : α) : Prop :=
  ∀ rest, r (bytes ++ rest) = .ok (a, rest)

section

variable {α β : Type} {r : Reader α} {k : α → Reader β} {bytes front back : Bytes} {a : α} {b : β}

theorem takes_pure (a : α) : Takes (pure a : Reader α) [] a := fun _ => rfl

theorem Takes.bind (first : Takes r front a) (second : Takes (k a) back b) :
    Takes (r >>= k) (front ++ back) b := by
  intro rest
  change (r (front ++ back ++ rest) >>= fun p => k p.1 p.2) = _
  rw [List.append_assoc, first]
  exact second rest

theorem Takes.bind_pure (first : Takes r bytes a) (f : α → β) :
    Takes (r >>= fun a => pure (f a)) bytes (f a) := by
  have both := first.bind (k := fun a => pure (f a)) (takes_pure (f a))
  rwa [List.append_nil] at both

theorem Takes.skip (first : Takes r [] a) (second : Takes (k a) bytes b) :
    Takes (r >>= k) bytes b := first.bind second

theorem takes_lift {result : Except ReadError α} (given : result = .ok a) :
    Takes (lift result) [] a := by
  intro rest
  rw [given]
  rfl

theorem takes_take (bytes : Bytes) : Takes (take bytes.length) bytes bytes := by
  intro rest
  simp [take]

theorem takes_u2 (n : UInt16) : Takes u2 (BigEndian.bytes 2 n.toNat) n := by
  intro rest
  have number := BigEndian.value_bytes 2 n.toNat_lt
  change Except.ok ((BigEndian.value (BigEndian.bytes 2 n.toNat)).toUInt16, rest) = _
  rw [number]
  simp

theorem takes_u4 (n : UInt32) : Takes u4 (BigEndian.bytes 4 n.toNat) n := by
  intro rest
  have number := BigEndian.value_bytes 4 n.toNat_lt
  change Except.ok ((BigEndian.value (BigEndian.bytes 4 n.toNat)).toUInt32, rest) = _
  rw [number]
  simp

private theorem takes_manyFrom {item : Nat → Reader α} {pieces : List Bytes} {as : List α}
    (each : List.Forall₂ (fun bytes a => ∀ i, Takes (item i) bytes a) pieces as) :
    ∀ (start : Nat) (found : List α),
      Takes (manyFrom item as.length start found) pieces.flatten (found.reverse ++ as) := by
  induction each with
  | nil =>
    intro start found
    rw [List.append_nil]
    exact takes_pure found.reverse
  | @cons bytes a pieces as head _ ih =>
    intro start found
    have tail := ih (start + 1) (a :: found)
    rw [List.reverse_cons, List.append_assoc] at tail
    exact (head start).bind tail

theorem takes_many {item : Nat → Reader α} {pieces : List Bytes} {as : List α}
    (each : List.Forall₂ (fun bytes a => ∀ i, Takes (item i) bytes a) pieces as) :
    Takes (many as.length item) pieces.flatten as :=
  takes_manyFrom each 1 []

end

theorem toNat_ofNat_of_le_u2 {n : Nat} (small : n ≤ 65535) : (UInt16.ofNat n).toNat = n :=
  UInt16.toNat_ofNat_of_lt' (Nat.lt_succ_of_le small)

theorem toNat_ofNat_of_le_u4 {n : Nat} (small : n ≤ 4294967295) :
    (UInt32.ofNat n).toNat = n :=
  UInt32.toNat_ofNat_of_lt' (Nat.lt_succ_of_le small)

theorem takes_u2_of_le {n : Nat} (small : n ≤ 65535) :
    Takes u2 (BigEndian.bytes 2 n) (UInt16.ofNat n) := by
  have taken := takes_u2 (UInt16.ofNat n)
  rwa [toNat_ofNat_of_le_u2 small] at taken

private theorem takes_u4_of_le {n : Nat} (small : n ≤ 4294967295) :
    Takes u4 (BigEndian.bytes 4 n) (UInt32.ofNat n) := by
  have taken := takes_u4 (UInt32.ofNat n)
  rwa [toNat_ofNat_of_le_u4 small] at taken

section

variable {β : Type} {k : Bytes → Reader β} {bytes back : Bytes} {b : β}

private theorem Takes.counted_u2 (small : bytes.length ≤ 65535) (second : Takes (k bytes) back b) :
    Takes (u2 >>= fun n => take n.toNat >>= k)
      (BigEndian.bytes 2 bytes.length ++ (bytes ++ back)) b := by
  refine (takes_u2_of_le small).bind ?_
  rw [toNat_ofNat_of_le_u2 small]
  exact (takes_take bytes).bind second

theorem Takes.counted_u4 (small : bytes.length ≤ 4294967295) (second : Takes (k bytes) back b) :
    Takes (u4 >>= fun n => take n.toNat >>= k)
      (BigEndian.bytes 4 bytes.length ++ (bytes ++ back)) b := by
  refine (takes_u4_of_le small).bind ?_
  rw [toNat_ofNat_of_le_u4 small]
  exact (takes_take bytes).bind second

end

end Reader

/-- The bytes that write a pool entry: its tag, then a text that can be decoded behind its length, a
number, or the indices it refers to. -/
inductive RawEntry.Written : RawEntry → Bytes → Prop where
  | utf8 {text : Text} {body : Bytes} (fits : body.length ≤ 65535)
    (decoded : ModifiedUtf8.decode body = .ok text) :
    Written (.utf8 text) (Tag.utf8.byte :: (BigEndian.bytes 2 body.length ++ body))
  | integer (number : UInt32) :
    Written (.integer number.toInt32) (Tag.integer.byte :: BigEndian.bytes 4 number.toNat)
  | classRef (name : UInt16) :
    Written (.classRef name) (Tag.classRef.byte :: BigEndian.bytes 2 name.toNat)
  | string (text : UInt16) :
    Written (.string text) (Tag.string.byte :: BigEndian.bytes 2 text.toNat)
  | nameAndType (name descriptor : UInt16) :
    Written (.nameAndType name descriptor) (Tag.nameAndType.byte ::
      (BigEndian.bytes 2 name.toNat ++ BigEndian.bytes 2 descriptor.toNat))
  | fieldRef (owner member : UInt16) :
    Written (.fieldRef owner member) (Tag.fieldRef.byte ::
      (BigEndian.bytes 2 owner.toNat ++ BigEndian.bytes 2 member.toNat))
  | methodRef (owner member : UInt16) :
    Written (.methodRef owner member) (Tag.methodRef.byte ::
      (BigEndian.bytes 2 owner.toNat ++ BigEndian.bytes 2 member.toNat))

namespace RawEntry

open Reader (Takes takes_pure takes_u2 takes_u4)

private theorem takes_read_of_body {entry : Nat} {tag : Tag} {body : Bytes} {e : RawEntry}
    (taken : Takes (readBody entry tag) body e) :
    Takes (read entry) (tag.byte :: body) e := by
  have first : Takes Reader.u1 [tag.byte] tag.byte := fun _ => rfl
  exact first.bind taken

theorem takes_read_of_written {e : RawEntry} {bytes : Bytes} (written : e.Written bytes)
    (entry : Nat) : Takes (read entry) bytes e := by
  cases written with
  | @utf8 text body fits decoded =>
    refine takes_read_of_body ?_
    rw [readBody, if_pos rfl, ← List.append_nil (_ ++ body), List.append_assoc]
    refine Reader.Takes.counted_u2 fits ?_
    rw [decoded]
    exact takes_pure _
  | integer number =>
    exact takes_read_of_body ((takes_u4 number).bind_pure fun n => RawEntry.integer n.toInt32)
  | classRef name => exact takes_read_of_body ((takes_u2 name).bind_pure RawEntry.classRef)
  | string text => exact takes_read_of_body ((takes_u2 text).bind_pure RawEntry.string)
  | nameAndType name descriptor =>
    exact takes_read_of_body
      ((takes_u2 name).bind ((takes_u2 descriptor).bind_pure (RawEntry.nameAndType name)))
  | fieldRef owner member =>
    exact takes_read_of_body
      ((takes_u2 owner).bind ((takes_u2 member).bind_pure (RawEntry.fieldRef owner)))
  | methodRef owner member =>
    exact takes_read_of_body
      ((takes_u2 owner).bind ((takes_u2 member).bind_pure (RawEntry.methodRef owner)))

end RawEntry

end JvmAssembler
