import JvmAssembler.BigEndian
import JvmAssembler.Failure
import JvmAssembler.Trail

/-!
# Writing fields

A class file is a sequence of unsigned fields of one, two or four bytes and of raw bytes. A writer
checks that every number fits its field. The first one that does not stops it: nothing is written
from there on, and that number is what it reports.
-/

set_option autoImplicit false

namespace JvmAssembler

inductive Width where
  | u1
  | u2
  | u4
deriving DecidableEq

namespace Width

def size : Width → Nat
  | .u1 => 1
  | .u2 => 2
  | .u4 => 4

def largest : Width → Nat
  | .u1 => 255
  | .u2 => 65535
  | .u4 => 4294967295

end Width

/-- Something to write. A number carries the name that a message gives its field. -/
inductive Field where
  | number (width : Width) (name : Text) (value : Int)
  | raw (bytes : Bytes)
deriving DecidableEq

namespace Field

def fits : Field → Bool
  | .number width _ value => 0 ≤ value && value ≤ width.largest
  | .raw _ => true

def bytes : Field → Bytes
  | .number width _ value => BigEndian.bytes width.size value.toNat
  | .raw bytes => bytes

def overflow? : Field → Option Failure
  | .number width name value =>
    some (.because .overflow "classfile.Writer" (.outOfRange name value width.largest))
  | .raw _ => none

end Field

/-- The bytes written so far, and the failure that stopped the writing. -/
structure FieldWriter where
  chunks : Trail Bytes := {}
  stopped : Option Failure := none

namespace FieldWriter

/-- Writes one field, unless an earlier one did not fit. -/
def put (w : FieldWriter) (f : Field) : FieldWriter :=
  if w.stopped.isSome then w
  else if f.fits then { w with chunks := w.chunks.push f.bytes }
  else { w with stopped := f.overflow? }

def putAll (w : FieldWriter) (fs : List Field) : FieldWriter := fs.foldl put w

def written (w : FieldWriter) : Bytes := w.chunks.toList.flatten

def length (w : FieldWriter) : Nat := w.written.length

def result (w : FieldWriter) : Except Failure Bytes :=
  match w.stopped with
  | some failure => .error failure
  | none => .ok w.written

end FieldWriter

/-- The bytes of fields in order, or the overflow of the first one that does not fit. -/
def Field.encodeAll (fs : List Field) : Except Failure Bytes :=
  (({} : FieldWriter).putAll fs).result

end JvmAssembler
