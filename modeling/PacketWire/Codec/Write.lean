import PacketWire.Codec.Plan

/-!
# Writing a record into a buffer

A record is written field by field into a buffer that is already there, each field at the position
its offset has under the record's plan. The buffer is the state of the computation: a fault keeps
what was written before it.
-/

namespace PacketWire

/-- A computation that overwrites a buffer and may fail, keeping the buffer when it does. -/
abbrev Write := EStateM CodecError Bytes

namespace Write

/-- Runs a computation that writes nothing. -/
def lift {α : Type} : Except CodecError α → Write α
  | .ok value => pure value
  | .error fault => throw fault

/-- Writes bytes at a position. -/
def put (position : Nat) (src : Bytes) : Write Unit := do
  match (← get).splice? position src with
  | some buf => set buf
  | none => throw .outOfBounds

/-- Refuses a buffer that is shorter than required (`ensure`). -/
def ensure (required : Nat) : Write Unit := do
  lift (Codec.ensure (← get) required)

/-- Takes the window of the buffer that is to be written. -/
def window (position width : Nat) : Write Unit := do
  if (← get).length < position + width then
    throw .outOfBounds

/-- Writes a value that has to be a scalar of the given type, into the window of one
(`write_primitive`). -/
def scalar (field : String) (type : Primitive) (value : Value) (position : Nat) : Write Unit := do
  window position type.width
  match value with
  | .scalar s =>
    if s.type = type then
      put position s.toBytes
    else
      throw (value.mismatch field type.name)
  | _ => throw (value.mismatch field type.name)

/-- Writes a count as an integer of the size field's type (`write_count`). -/
def count (field sizeField : String) (type : Primitive) (count position : Nat) : Write Unit :=
  match Scalar.ofCount? type count with
  | some s => put position s.toBytes
  | none => throw (.lengthOverflow field sizeField count)

/-- The bytes of a text that is ASCII and free of NUL, behind which a reader could not see. -/
def textBytes (field : String) : Value → Except CodecError Bytes
  | .text s =>
    if !s.toList.all (·.toNat < 0x80) then .error (.nonAscii field)
    else if s.toList.contains '\x00' then .error (.embeddedNul field)
    else .ok (s.toList.map fun c => UInt8.ofNat c.toNat)
  | other => .error (other.mismatch field "string")

/-- Writes a text, filled up with zeros to its width; a counted text is followed by one. -/
def text (field : String) (width : TextWidth) (value : Value) (position : Nat) : Write Unit := do
  let bytes ← lift (textBytes field value)
  let capacity := match width with
    | .fixed capacity => capacity
    | .counted _ => bytes.length + 1
  if capacity < bytes.length then
    throw (.stringTooLong field bytes.length capacity)
  else
    put position (bytes ++ List.replicate (capacity - bytes.length) 0)

/-- Writes an array of scalars, one after another. -/
def scalars (field : String) (type : Primitive) (value : Value) (position : Nat) : Write Unit :=
  match type, value with
  | .u8, .bytes b => put position b
  | _, .array items =>
    items.zipIdx.forM fun (item, k) => scalar field type item (position + k * type.width)
  | _, _ => throw (value.mismatch field "array")

end Write

namespace Layout

open Write

mutual
/-- Writes a record by its plan, with the layout starting at `base` (`write`). -/
def write : Layout → Record → Plan → Nat → Write Unit
  | ⟨_, _, fields, _, _⟩, record, plan, base => do
    ensure (Size.addSat base plan.length)
    writeFields fields (fields.map (·.name)) record plan base 0

/-- Writes a list of fields, the first of which has the given index. -/
def writeFields : List (FieldLayout Layout) → List String → Record → Plan → Nat → Nat → Write Unit
  | [], _, _, _, _, _ => pure ()
  | ⟨slot, codec⟩ :: rest, names, record, plan, base, index => do
    let position ← lift (Codec.locate slot.name base slot.offset plan.spans)
    writeField codec slot names record (plan.counts.lookup index) position
    writeFields rest names record plan base (index + 1)

/-- Writes one field. A field with a count is a size field: it carries the count, whatever the
record holds under its name. -/
def writeField : FieldCodec Layout → Slot → List String → Record → Option Nat → Nat → Write Unit
  | .scalar type, slot, names, _, some count, position =>
    let dependent := (slot.dependents.head?.bind (names[·]?)).getD ""
    Write.count dependent slot.name type count position
  | .scalar type, slot, _, record, none, position => do
    let value ← lift (record.require slot.name)
    scalar slot.name type value position
  | .text width, slot, _, record, _, position => do
    let value ← lift (record.require slot.name)
    text slot.name width value position
  | .array element length, slot, _, record, _, position => do
    let value ← lift (record.require slot.name)
    let found ← lift (Codec.arrayLength slot.name value)
    if found = length then
      writeElements element slot.name value position
    else
      throw (.arrayLength slot.name found length)
  | .list element _, slot, _, record, _, position => do
    let value ← lift (record.require slot.name)
    writeElements element slot.name value position
  | .struct layout, slot, _, record, _, position => do
    let value ← lift (record.require slot.name)
    let inner ← lift (value.asRecord slot.name)
    let plan ← lift (layout.plan inner)
    write layout inner plan position

/-- Writes the elements of an array, one after another (`write_elements`). -/
def writeElements : ElementCodec Layout → String → Value → Nat → Write Unit
  | .scalar type, field, value, position => scalars field type value position
  | .struct layout, field, .array items, position =>
    items.zipIdx.forM fun (item, k) => do
      let inner ← lift (item.asRecord field)
      let plan ← lift (layout.plan inner)
      write layout inner plan (position + k * layout.staticSize)
  | .struct _, field, value, _ => throw (value.mismatch field "array")
end

/-- Sizes a record and writes it with the layout starting at `base` (`encode_into`): the bytes it
spans. -/
def encodeInto (layout : Layout) (record : Record) (base : Nat) : Write Nat := do
  let plan ← lift (layout.plan record)
  layout.write record plan base
  return plan.length

end Layout

end PacketWire
