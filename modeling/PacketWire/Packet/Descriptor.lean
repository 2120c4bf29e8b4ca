import PacketWire.Codec.Measure
import PacketWire.Codec.Read
import PacketWire.Codec.Write
import PacketWire.Layout.Compile
import PacketWire.Packet.Key

/-!
# Compiled packets

A descriptor is a packet ready to be written and read: its header bytes, the layout of its fields,
and the sequence byte at its end if it has one. The sequence byte is written as zero and never
looked at.
-/

namespace PacketWire

/-- A compiled packet (`PacketDescriptor`). -/
structure Descriptor where
  name : String
  header : UInt8
  subHeader : Option UInt8
  direction : Direction
  hasSequence : Bool
  /-- Whether this entry only stands for a header whose packets differ in their sub-header. -/
  isFamily : Bool
  layout : Layout

namespace Descriptor

/-- The packet that a schema declares, from the layout of its fields (`new`). -/
def ofSchema (schema : PacketSchema) (layout : Layout) : Descriptor where
  name := schema.name
  header := schema.header
  subHeader := schema.subHeader
  direction := schema.direction
  hasSequence := schema.hasSequence
  isFamily := false
  layout := layout

/-- The entry that stands for every packet with a header (`family`): two bytes and no field. -/
def family (header : UInt8) (direction : Direction) : Descriptor :=
  let name := "family " ++ Hex.byte header
  { name, header, direction
    subHeader := none
    hasSequence := false
    isFamily := true
    layout := { name, start := 2, fields := [], stop := ⟨2, []⟩, buildOrder := [] } }

def key (d : Descriptor) : Key := ⟨d.header, d.subHeader⟩

/-- Bytes in front of the first field of a packet with this key (`header_len`). -/
def headerLength (d : Descriptor) : Nat := d.key.bytes.length

/-- Bytes behind the last field. -/
def trailerLength (d : Descriptor) : Nat := if d.hasSequence then 1 else 0

/-- The bytes every such packet has: header, fixed parts and sequence byte. -/
def staticSize (d : Descriptor) : Nat := d.layout.staticSize + d.trailerLength

/-- Whether the length depends on the values. -/
def isDynamic (d : Descriptor) : Bool := d.layout.isDynamic

/-! ## Writing -/

/-- The length of the packet that carries a record (`encoded_len`). No buffer has a length that is
no size. -/
def encodedLength (d : Descriptor) (record : Record) : Except CodecError Nat := do
  match Size.add? (← d.layout.encodedLength record) d.trailerLength with
  | some length => return length
  | none => throw .outOfBounds

/-- Writes the packet at a position of the buffer (`encode_into`): the bytes written. -/
def encodeInto (d : Descriptor) (record : Record) (position : Nat) : Write Nat := do
  let plan ← Write.lift (d.layout.plan record)
  let length := plan.length + d.trailerLength
  Write.ensure (position + length)
  Write.put position [d.header]
  match d.subHeader with
  | some sub => Write.put (position + 1) [sub]
  | none => pure ()
  d.layout.write record plan position
  if d.hasSequence then
    Write.put (position + length - 1) [0]
  return length

/-- The packet that carries a record (`encode`). -/
def encode (d : Descriptor) (record : Record) : Except CodecError Bytes := do
  let length ← d.encodedLength record
  match (d.encodeInto record 0).run (List.replicate length 0) with
  | .ok _ buf => .ok buf
  | .error fault _ => .error fault

/-! ## Reading -/

/-- Reads the packet at a position of the buffer (`decode`): the record and the bytes it takes. The
header bytes are skipped. -/
def decode (d : Descriptor) (buf : Bytes) (position : Nat) : Except CodecError (Record × Nat) := do
  Codec.ensure buf (position + d.staticSize)
  let (record, length) ← d.layout.decodeFrom buf position
  let length := Size.addSat length d.trailerLength
  Codec.ensure buf (Size.addSat position length)
  return (record, length)

/-- The length of the packet at the start of the buffer, once the buffer tells (`frame_len`). -/
def frameLength (d : Descriptor) (buf : Bytes) : Except CodecError (Option Nat) := do
  if buf.length < d.staticSize then
    return none
  else if !d.isDynamic then
    return some d.staticSize
  else
    return (← d.layout.measure buf 0).map (Size.addSat · d.trailerLength)

end Descriptor

/-- The descriptor of a packet schema. -/
def Compile.descriptor (table : TypeTable) (schema : PacketSchema) : Compile Descriptor := do
  return .ofSchema schema (← Compile.packet table schema)

/-- The descriptor of a packet schema, compiled on its own (`compile_packet`). -/
def PacketSchema.compile (schema : PacketSchema) (table : TypeTable) :
    Except SchemaError Descriptor :=
  match (Compile.descriptor table schema).run [] with
  | .ok descriptor _ => .ok descriptor
  | .error fault _ => .error fault

end PacketWire
