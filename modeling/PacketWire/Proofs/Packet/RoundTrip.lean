import PacketWire.Proofs.Packet.Decode
import PacketWire.Proofs.Wire.Normal

/-!
# Round trips

What a compiled schema writes is the wire format, and what it writes it reads back as the normal
form of the record, which has the same bytes again.

* `PacketSchema.encode_iff_wire`: the bytes of a packet are the concatenation of its parts.
* `PacketSchema.decode_encode`: the packet of a record has the length foreseen and announced, and
  is read back as the record's normal form.
-/

namespace PacketWire

theorem Descriptor.Compiles.sound {table : TypeTable} {schema : PacketSchema} {d : Descriptor}
    (h : d.Compiles table schema) : d.Sound where
  wellFormed := h.layout.wellFormed
  start_eq := by
    rw [h.layout.start_eq, h.eq_ofSchema, Descriptor.headerLength_eq, PacketSchema.headerLength]
    show _ = 1 + schema.subHeader.toList.length
    cases schema.subHeader <;> rfl

namespace Descriptor

/-- An encoded packet is read back as the normal form of its record, whatever stands behind. -/
theorem decode_of_encode {d : Descriptor} (h : d.Sound) {record : Record} {bytes : Bytes}
    (hencode : d.encode record = .ok bytes) :
    ∃ normal, d.layout.normal? record = some normal ∧
      d.decode bytes 0 = .ok (normal, bytes.length) := by
  obtain ⟨hwire, hlt⟩ := (encode_eq_ok_iff h).mp hencode
  obtain ⟨normal, hnormal, hscan⟩ := scan_wire? h hwire []
  rw [List.append_nil] at hscan
  obtain ⟨n, hdecode, hle, hrest⟩ := decode_scan? h.wellFormed hlt (Nat.zero_le _) hscan
  rw [Nat.zero_add] at hle hrest
  have hn : n = bytes.length :=
    Nat.le_antisymm hle (List.drop_eq_nil_iff.mp hrest.symm)
  exact ⟨normal, hnormal, hn ▸ hdecode⟩

/-- The normal form of a record is encoded as the record is. -/
theorem encode_normal {d : Descriptor} (h : d.Sound) {record normal : Record} {bytes : Bytes}
    (hencode : d.encode record = .ok bytes) (hnormal : d.layout.normal? record = some normal) :
    d.encode normal = .ok bytes := by
  obtain ⟨hwire, hlt⟩ := (encode_eq_ok_iff h).mp hencode
  obtain ⟨body, hbody, hbytes⟩ := wire?_eq_some_iff.mp hwire
  have hkept := h.wellFormed.keeps record body normal hbody hnormal
  exact (encode_eq_ok_iff h).mpr ⟨wire?_eq_some_iff.mpr ⟨body, hkept, hbytes⟩, hlt⟩

end Descriptor

/-! ## A packet with a bit of everything -/

namespace Inventory

def types : TypeTable where
  structs :=
    [{ name := "Item"
       fields := [{ name := "vnum", kind := .scalar .u32 }, { name := "worn", kind := .scalar .bool }] },
      { name := "Note"
        fields :=
          [{ name := "size", kind := .scalar .i16 },
            { name := "text", kind := .text, sizedBy := some "size" }] }]
  nodup := by decide

/-- Items and flags are counted by one field, which is moved to the front. -/
def schema : PacketSchema where
  name := "Inventory"
  header := 0x21
  subHeader := some 0x07
  hasSequence := true
  fields :=
    [{ name := "items", kind := .list (.struct "Item"), sizedBy := some "count" },
      { name := "title", kind := .text, length := some 4 },
      { name := "flags", kind := .array (.scalar .u8), sizedBy := some "count" },
      { name := "note", kind := .struct "Note", binding := .readonly },
      { name := "count", kind := .scalar .u8, position := some 0 }]

/-- Two items, without the counts that the packet derives and with a field that it drops. -/
def record : Record :=
  ⟨[("note", .record ⟨[("text", .text "hi")]⟩), ("extra", .u8 1),
    ("flags", .array [.u8 9, .u8 8]),
    ("items", .array
      [.record ⟨[("worn", .bool true), ("vnum", .u32 0x01020304)]⟩,
        .record ⟨[("vnum", .u32 5), ("worn", .bool false)]⟩]),
    ("title", .text "bag")]⟩

def packet : Bytes :=
  [0x21, 0x07, 2, 4, 3, 2, 1, 1, 5, 0, 0, 0, 0, 98, 97, 103, 0, 9, 8, 2, 0, 104, 105, 0, 0]

theorem encodes : ∃ d, schema.compile types = .ok d ∧ d.encode record = .ok packet := by
  have hrun : (schema.compile types).toOption.bind (fun d => (d.encode record).toOption) =
      some packet := by
    decide +kernel
  obtain ⟨d, hcompile, hencode⟩ := Option.bind_eq_some_iff.mp hrun
  exact ⟨d, toOption_eq_some_iff.mp hcompile, toOption_eq_some_iff.mp hencode⟩

end Inventory

/-! ## Compiled schemas -/

namespace PacketSchema

variable {schema : PacketSchema} {table : TypeTable} {d : Descriptor}

/-- A compiled schema follows its declaration, and encodes a record exactly when the record has a
wire form that is not too long, and then as that: the header bytes, the fields in wire order and
the sequence byte. -/
theorem encode_iff_wire (hcompile : schema.compile table = .ok d) :
    d = .ofSchema schema d.layout ∧ d.layout.Follows table schema.fields ∧
      ∀ record bytes,
        d.encode record = .ok bytes ↔ d.wire? record = some bytes ∧ bytes.length < Size.limit := by
  have hcompiles := compile_ok hcompile
  exact ⟨hcompiles.eq_ofSchema, hcompiles.layout.follows,
    fun _ _ => Descriptor.encode_eq_ok_iff hcompiles.sound⟩

theorem inventory_wire : ∃ d, Inventory.schema.compile Inventory.types = .ok d ∧
    d.layout.Follows Inventory.types Inventory.schema.fields ∧
      d.wire? Inventory.record = some Inventory.packet := by
  obtain ⟨d, hcompile, hencode⟩ := Inventory.encodes
  obtain ⟨-, hfollows, hwire⟩ := encode_iff_wire hcompile
  exact ⟨d, hcompile, hfollows, ((hwire Inventory.record Inventory.packet).mp hencode).1⟩

/-- The packet of a record has the length that is foreseen and announced. It is read back as the
record's normal form, which holds the fields of the layout and no others, and is encoded again as
the same packet. -/
theorem decode_encode (hcompile : schema.compile table = .ok d) {record : Record} {bytes : Bytes}
    (hencode : d.encode record = .ok bytes) :
    d.encodedLength record = .ok bytes.length ∧
      d.frameLength bytes = .ok (some bytes.length) ∧
      ∃ normal, d.layout.normal? record = some normal ∧
        normal.names.Perm (d.layout.fields.map (·.name)) ∧
        d.decode bytes 0 = .ok (normal, bytes.length) ∧
        d.encode normal = .ok bytes := by
  have hsound := (compile_ok hcompile).sound
  obtain ⟨normal, hnormal, hdecode⟩ := Descriptor.decode_of_encode hsound hencode
  have hlt := ((Descriptor.encode_eq_ok_iff hsound).mp hencode).2
  exact ⟨Descriptor.encodedLength_of_encode hsound hencode,
    Descriptor.frameLength_of_decode hsound.wellFormed hlt hdecode, normal, hnormal,
    (Layout.normal?_eq_some hsound.wellFormed.coherent hnormal).1, hdecode,
    Descriptor.encode_normal hsound hencode hnormal⟩

theorem inventory_round_trip : ∃ d normal, Inventory.schema.compile Inventory.types = .ok d ∧
    d.encode Inventory.record = .ok Inventory.packet ∧
      d.frameLength Inventory.packet = .ok (some 25) ∧
      d.decode Inventory.packet 0 = .ok (normal, 25) ∧
      d.encode normal = .ok Inventory.packet := by
  obtain ⟨d, hcompile, hencode⟩ := Inventory.encodes
  obtain ⟨-, hframe, normal, -, -, hdecode, hagain⟩ := decode_encode hcompile hencode
  exact ⟨d, normal, hcompile, hencode, hframe, hdecode, hagain⟩

end PacketSchema

end PacketWire
