import PacketWire.Proofs.Packet.RoundTrip
import PacketWire.Proofs.Wire.Conform

/-!
# Records that can be encoded

A packet encodes the records that conform to its layout and are not too long for a size, and no
others.

* `Descriptor.exists_wire?_iff`: a record has a wire form exactly when it conforms.
* `Descriptor.length_wire?`: the wire form takes the extent of its record.
* `PacketSchema.encode_iff_conforms`: encoding succeeds exactly on the conforming records.
-/

namespace PacketWire

namespace Descriptor

/-- The bytes that the packet of a record takes. -/
def extent (d : Descriptor) (record : Record) : Nat := d.layout.extent record + d.trailerLength

variable {d : Descriptor} {record : Record}

theorem exists_wire?_iff (h : d.layout.WellFormed) :
    (∃ bytes, d.wire? record = some bytes) ↔ d.layout.Conforms record := by
  rw [← h.serial?_isSome_iff, ← Option.isSome_iff_exists, wire?_eq, Option.isSome_map]

theorem length_wire? (h : d.Sound) {bytes : Bytes} (hwire : d.wire? record = some bytes) :
    bytes.length = d.extent record := by
  obtain ⟨body, hbody, rfl⟩ := wire?_eq_some_iff.mp hwire
  have hstart : d.key.bytes.length = d.layout.start := h.start_eq.symm
  rw [extent, ← h.wellFormed.length_eq_extent record body hbody, List.length_append,
    List.length_append, hstart, ← trailerLength_eq, Nat.add_assoc]

end Descriptor

namespace PacketSchema

/-- A compiled schema encodes a record exactly when the record conforms to the layout, which
follows the declaration, and its packet has a length below the limit of sizes: header bytes, fields
and sequence byte together. -/
theorem encode_iff_conforms {schema : PacketSchema} {table : TypeTable} {d : Descriptor}
    (hcompile : schema.compile table = .ok d) :
    d = .ofSchema schema d.layout ∧ d.layout.start = schema.headerLength ∧
      d.layout.Follows table schema.fields ∧
      ∀ record,
        ((∃ bytes, d.encode record = .ok bytes) ↔
          d.layout.Conforms record ∧ d.extent record < Size.limit) ∧
        ∀ bytes, d.encode record = .ok bytes → bytes.length = d.extent record := by
  have hcompiles := compile_ok hcompile
  have hsound := hcompiles.sound
  refine ⟨hcompiles.eq_ofSchema, hcompiles.layout.start_eq, hcompiles.layout.follows, ?_⟩
  intro record
  rw [← Descriptor.exists_wire?_iff hsound.wellFormed]
  simp only [Descriptor.encode_eq_ok_iff hsound]
  refine ⟨⟨?_, ?_⟩, ?_⟩
  · rintro ⟨bytes, hwire, hlt⟩
    exact ⟨⟨bytes, hwire⟩, Descriptor.length_wire? hsound hwire ▸ hlt⟩
  · rintro ⟨⟨bytes, hwire⟩, hlt⟩
    exact ⟨bytes, hwire, (Descriptor.length_wire? hsound hwire).symm ▸ hlt⟩
  · rintro bytes ⟨hwire, -⟩
    exact Descriptor.length_wire? hsound hwire

/-- The inventory conforms. It does not with three flags to its two items, nor with a title that
has no room for its five characters. -/
theorem inventory_conforms : ∃ d, Inventory.schema.compile Inventory.types = .ok d ∧
    d.layout.Conforms Inventory.record ∧ d.extent Inventory.record = 25 ∧
      ¬d.layout.Conforms (Inventory.record.set "flags" (.bytes [9, 8, 7])) ∧
      ¬d.layout.Conforms (Inventory.record.set "title" (.text "purse")) := by
  have hrun : (Inventory.schema.compile Inventory.types).toOption.map (fun d =>
      [Inventory.record, Inventory.record.set "flags" (.bytes [9, 8, 7]),
        Inventory.record.set "title" (.text "purse")].map fun record =>
          (d.extent record, (d.encode record).toOption)) =
      some [(25, some Inventory.packet), (26, none), (25, none)] := by
    decide +kernel
  obtain ⟨d, hcompile, hfound⟩ := Option.map_eq_some_iff.mp hrun
  rw [toOption_eq_some_iff] at hcompile
  simp only [List.map_cons, List.map_nil, List.cons.injEq, Prod.mk.injEq, toOption_eq_some_iff,
    and_true] at hfound
  obtain ⟨⟨hextent, hencode⟩, ⟨hlonger, hflags⟩, hsame, htitle⟩ := hfound
  obtain ⟨-, -, -, hconforms⟩ := encode_iff_conforms hcompile
  have hrefused : ∀ record, (d.encode record).toOption = none → d.extent record < Size.limit →
      ¬d.layout.Conforms record := by
    intro record hnone hlt hrecord
    obtain ⟨bytes, hbytes⟩ := (hconforms record).1.mpr ⟨hrecord, hlt⟩
    rw [hbytes] at hnone
    cases hnone
  refine ⟨d, hcompile, ((hconforms _).1.mp ⟨_, hencode⟩).1, hextent, ?_, ?_⟩
  · exact hrefused _ hflags (by rw [hlonger]; decide)
  · exact hrefused _ htitle (by rw [hsame]; decide)

end PacketSchema

end PacketWire
