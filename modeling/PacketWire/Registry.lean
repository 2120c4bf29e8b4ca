import PacketWire.Error
import PacketWire.Packet.Control
import PacketWire.Packet.Descriptor

/-!
# The packets a connection knows

A registry holds the compiled packets of either direction, by key. A key that is registered twice
keeps its first packet. Where packets differ in their sub-header only, their header alone is
registered too, as an entry that stands for the family. The handshake and the phase change are
always there.
-/

namespace PacketWire

/-- Compiled packets by key, first registration first (`Table`). -/
structure PacketTable where
  entries : List (Key × Descriptor) := []

namespace PacketTable

def get? (table : PacketTable) (key : Key) : Option Descriptor := table.entries.lookup key

def size (table : PacketTable) : Nat := table.entries.length

/-- Enters a packet under a key that is still free. -/
def insertNew (table : PacketTable) (key : Key) (descriptor : Descriptor) : PacketTable :=
  match table.get? key with
  | some _ => table
  | none => ⟨table.entries ++ [(key, descriptor)]⟩

/-- Registers a packet that travels in a direction; one with a sub-header takes its header along,
for the family. -/
def register (table : PacketTable) (direction : Direction) (d : Descriptor) : PacketTable :=
  let table :=
    if d.subHeader.isSome then table.insertNew ⟨d.header, none⟩ (.family d.header direction)
    else table
  table.insertNew d.key d

/-- The keys and their packets (`descriptors`), by header, each header alone before its
sub-headers. -/
def listing (table : PacketTable) : List (Key × Descriptor) :=
  table.entries.mergeSort fun a b => a.1.rank ≤ b.1.rank

end PacketTable

/-- The compiled packets of both directions (`PacketRegistry`). -/
structure Registry where
  incoming : PacketTable := {}
  outgoing : PacketTable := {}

namespace Registry

/-- The packets that travel in a direction (`table`). What travels both ways is in both tables, so
that a reader of both finds it among the incoming ones. -/
def table (registry : Registry) : Direction → PacketTable
  | .outgoing => registry.outgoing
  | .incoming | .both => registry.incoming

def get? (registry : Registry) (direction : Direction) (key : Key) : Option Descriptor :=
  (registry.table direction).get? key

/-- The entry of a header alone (`lookup`). -/
def lookup (registry : Registry) (direction : Direction) (header : UInt8) : Option Descriptor :=
  registry.get? direction ⟨header, none⟩

/-- The entry of a header and a sub-header (`lookup_sub`). -/
def lookupSub (registry : Registry) (direction : Direction) (header sub : UInt8) :
    Option Descriptor :=
  registry.get? direction ⟨header, some sub⟩

/-- Whether nothing is registered in either direction (`is_empty`). -/
def isEmpty (registry : Registry) : Bool :=
  registry.incoming.entries.isEmpty && registry.outgoing.entries.isEmpty

/-- The entry of a key that has to be there (`require`). -/
def require (registry : Registry) (direction : Direction) (key : Key) :
    Except ProtocolError Descriptor :=
  match registry.get? direction key with
  | some descriptor => .ok descriptor
  | none =>
    .error (match key.subHeader with
      | some sub => .unknownSubHeader key.header sub
      | none => .unknownHeader key.header)

/-! ## Building -/

/-- Registers a compiled packet in every direction it travels. -/
def register (registry : Registry) (d : Descriptor) : Registry where
  incoming :=
    if d.direction.covers .incoming then registry.incoming.register .incoming d
    else registry.incoming
  outgoing :=
    if d.direction.covers .outgoing then registry.outgoing.register .outgoing d
    else registry.outgoing

/-- Compiles schemas one after another, remembering the structs they share, and registers each. -/
def registerAll (table : TypeTable) : Registry → List PacketSchema → Compile Registry
  | registry, [] => pure registry
  | registry, schema :: rest => do
    let descriptor ← Compile.descriptor table schema
    registerAll table (registry.register descriptor) rest

/-- The packets that are always registered (`new`). -/
def builtIn : List PacketSchema := [Handshake.schema, PhaseChange.schema]

/-- The registry of some schemas (`build`). The first schema that does not compile is reported. -/
def build (table : TypeTable) (schemas : List PacketSchema) : Except SchemaError Registry :=
  match (registerAll table {} (builtIn ++ schemas)).run [] with
  | .ok registry _ => .ok registry
  | .error fault _ => .error fault

/-! ## Writing and reading by key -/

/-- The packet that carries a record under a key (`encode_record`). -/
def encodeRecord (registry : Registry) (direction : Direction) (key : Key) (record : Record) :
    Except ProtocolError Bytes := do
  ProtocolError.ofCodec ((← registry.require direction key).encode record)

/-- The packet that carries a value with a key of its own (`encode_as`). -/
def encode {α : Type} [TypedPacket α] (registry : Registry) (direction : Direction) (packet : α) :
    Except ProtocolError Bytes :=
  registry.encodeRecord direction (TypedPacket.key α) (RecordForm.toRecord packet)

/-- Reads a value with a key of its own from the start of some bytes (`decode_as`). -/
def decode (α : Type) [TypedPacket α] (registry : Registry) (direction : Direction)
    (bytes : Bytes) : Except ProtocolError α := do
  let descriptor ← registry.require direction (TypedPacket.key α)
  let (record, _) ← ProtocolError.ofCodec (descriptor.decode bytes 0)
  ProtocolError.ofCodec (RecordForm.ofRecord record)

end Registry

end PacketWire
