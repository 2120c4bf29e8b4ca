import PacketWire.Packet.Key
import PacketWire.Schema.Packet
import PacketWire.Value.Convert

/-!
# The packets every connection speaks

The handshake travels both ways and carries three 32-bit numbers; the phase change tells the client
which phase its session entered. Both have a form as records and a schema of their own.
-/

namespace PacketWire

/-- A packet type with a key and a schema of its own (`Packet`). -/
class TypedPacket (α : Type) extends RecordForm α where
  key : Key
  schema : PacketSchema

/-- Clock readings exchanged until they agree. -/
structure Handshake where
  nonce : UInt32
  time : UInt32
  delta : UInt32
  deriving DecidableEq, Repr

namespace Handshake

def toRecord (h : Handshake) : Record :=
  ⟨[("nonce", .u32 h.nonce), ("time", .u32 h.time), ("delta", .u32 h.delta)]⟩

def ofRecord (record : Record) : Except CodecError Handshake := do
  let (nonce, record) ← record.takeScalar "nonce" .u32
  let (time, record) ← record.takeScalar "time" .u32
  let (delta, _) ← record.takeScalar "delta" .u32
  return ⟨.ofBitVec nonce, .ofBitVec time, .ofBitVec delta⟩

def key : Key := ⟨0xFF, none⟩

def schema : PacketSchema where
  name := "Handshake"
  header := key.header
  direction := .both
  fields :=
    [{ name := "nonce", kind := .scalar .u32 }, { name := "time", kind := .scalar .u32 },
      { name := "delta", kind := .scalar .u32 }]

instance : TypedPacket Handshake where
  toRecord := toRecord
  ofRecord := ofRecord
  key := key
  schema := schema

end Handshake

/-- The announcement of a phase, by its code (`SetPhase`). -/
structure PhaseChange where
  code : UInt8
  deriving DecidableEq, Repr

namespace PhaseChange

def toRecord (p : PhaseChange) : Record := ⟨[("phase", .u8 p.code)]⟩

def ofRecord (record : Record) : Except CodecError PhaseChange := do
  let (code, _) ← record.takeScalar "phase" .u8
  return ⟨.ofBitVec code⟩

def key : Key := ⟨0xFD, none⟩

def schema : PacketSchema where
  name := "SetPhase"
  header := key.header
  direction := .outgoing
  fields := [{ name := "phase", kind := .scalar .u8 }]

instance : TypedPacket PhaseChange where
  toRecord := toRecord
  ofRecord := ofRecord
  key := key
  schema := schema

end PhaseChange

end PacketWire
