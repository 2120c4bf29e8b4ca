import PacketWire.Codec.Error
import PacketWire.Layout.Basic
import PacketWire.Text.Utf8
import PacketWire.Value.Basic

/-!
# Positions, counts and look-ups with faults

The small steps that writing, reading and measuring share: where a field sits, how many bytes a
count stands for, whether a buffer is long enough, and what a record holds under a name.
-/

namespace PacketWire

/-- The fault of a value of the wrong kind (`mismatch`). -/
def Value.mismatch (field expected : String) (found : Value) : CodecError :=
  .typeMismatch field expected found.kindName

/-- The value under a name that has to be there (`require`). -/
def Record.require (record : Record) (name : String) : Except CodecError Value :=
  match record.get? name with
  | some value => .ok value
  | none => .error (.missingField name)

/-- The record that a value has to be (`as_record`). -/
def Value.asRecord (field : String) : Value → Except CodecError Record
  | .record fields => .ok fields
  | other => .error (other.mismatch field "record")

namespace Codec

/-- The position of a field in a layout that starts at `base` (`locate`). -/
def locate (field : String) (base : Nat) (offset : Offset) (spans : List Nat) :
    Except CodecError Nat :=
  match (offset.eval? spans).bind (Size.add? base) with
  | some position => .ok position
  | none => .error (.sizeOverflow field)

/-- The bytes that a count of elements takes (`scaled`). -/
def scaled (field : String) (count scale : Nat) : Except CodecError Nat :=
  match Size.mul? count scale with
  | some span => .ok span
  | none => .error (.sizeOverflow field)

/-- Refuses a buffer that is shorter than required (`ensure`). -/
def ensure (buf : Bytes) (required : Nat) : Except CodecError Unit :=
  if buf.length < required then .error (.bufferTooShort required buf.length) else .ok ()

/-- The bytes at a position. -/
def slice (buf : Bytes) (position width : Nat) : Except CodecError Bytes :=
  match buf.slice? position width with
  | some bytes => .ok bytes
  | none => .error .outOfBounds

/-- The count that a size field carries (`count_of`). -/
def countOf (field : String) (value : Value) : Except CodecError Nat :=
  match value.toInt? with
  | none => .error (value.mismatch field "integer")
  | some count => if count < 0 then .error (.negativeSize field) else .ok count.toNat

/-- What a nested struct takes beyond its fixed part. -/
def spanOf (layout : Layout) (length : Nat) : Except CodecError Nat :=
  if layout.staticSize ≤ length then .ok (length - layout.staticSize) else .error .negativeSpan

/-- The scalar at a position (`read_primitive`). -/
def readScalar (type : Primitive) (buf : Bytes) (position : Nat) : Except CodecError Scalar := do
  ensure buf (Size.addSat position type.width)
  let raw ← slice buf position type.width
  return Scalar.ofBytes type raw

/-- Bytes in a text before it is known to be ASCII (`collection_len`). -/
def textLength (field : String) : Value → Except CodecError Nat
  | .text s => .ok (Utf8.length s)
  | other => .error (other.mismatch field "string")

/-- Elements in an array or a byte string (`collection_len`). -/
def arrayLength (field : String) : Value → Except CodecError Nat
  | .bytes b => .ok b.length
  | .array items => .ok items.length
  | other => .error (other.mismatch field "array")

end Codec

end PacketWire
