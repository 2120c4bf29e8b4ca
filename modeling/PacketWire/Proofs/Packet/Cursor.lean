import PacketWire.Proofs.Codec.Fault
import PacketWire.Proofs.Packet.RoundTrip
import PacketWire.Proofs.Wire.Local

/-!
# Packets under a cursor

Reading a packet at a position of a buffer is running a cursor over the bytes behind that position:
over the header bytes, field after field, and over the sequence byte. The two agree on every buffer,
whatever it holds.

* `Descriptor.decode_eq_ok_iff_scan?`: `decode` reads what the left-to-right reader reads.
* `Descriptor.decode_blamesBytes`: it fails where bytes run out or a size field is negative.
* `PacketSchema.decode_iff_scan`: so it is for every compiled schema, and what is read depends on
  the bytes of the packet alone.
-/

namespace PacketWire

namespace Descriptor

variable {d : Descriptor} {buf : Bytes} {position n : Nat} {record : Record}

/-- What `decode` reads at a position, the left-to-right reader reads behind it. -/
theorem scan_decode? (h : d.Sound) (hlt : buf.length < Size.largest)
    (hdecode : d.decode buf position = .ok (record, n)) :
    position + n ≤ buf.length ∧
      d.scan? (buf.drop position) = some (record, buf.drop (position + n)) := by
  obtain ⟨hstatic, length, hread, rfl, hstop⟩ := decode_eq_ok_iff.mp hdecode
  have hstart := h.wellFormed.coherent.start_le_staticSize
  rw [staticSize] at hstatic
  obtain ⟨-, -, -, hscan⟩ := h.wellFormed.scans buf position record length hlt (by omega) hread
  have hle := (Size.le_addSat_iff hlt).mp hstop
  have hexact : Size.addSat length d.trailerLength = length + d.trailerLength := by
    unfold Size.addSat at hle ⊢
    omega
  rw [hexact, ← Nat.add_assoc] at hle ⊢
  refine ⟨hle, ?_⟩
  rw [scan?, hscan]
  simp only [Option.bind_some, Scan.take_drop_of_le hle, Option.map_some]

theorem decode_eq_ok_iff_scan? (h : d.Sound) (hlt : buf.length < Size.largest) :
    d.decode buf position = .ok (record, n) ↔ position + n ≤ buf.length ∧
      d.scan? (buf.drop position) = some (record, buf.drop (position + n)) := by
  refine ⟨scan_decode? h hlt, ?_⟩
  rintro ⟨hle, hscan⟩
  obtain ⟨m, hdecode, hstop, hrest⟩ := decode_scan? h.wellFormed (Nat.lt_of_lt_pred hlt)
    (Nat.le_trans (Nat.le_add_right position n) hle) hscan
  have hlength := congrArg List.length hrest
  rw [List.length_drop, List.length_drop] at hlength
  rw [show n = m by omega]
  exact hdecode

/-- The bytes of a packet that is read decide what is read. -/
theorem decode_of_slice? (h : d.Sound) (hlt : buf.length < Size.largest)
    (hdecode : d.decode buf position = .ok (record, n)) {other : Bytes} {place : Nat}
    (hother : other.length < Size.largest)
    (hslice : other.slice? place n = buf.slice? position n) :
    d.decode other place = .ok (record, n) := by
  obtain ⟨hle, hscan⟩ := scan_decode? h hlt hdecode
  obtain ⟨front, hfront, hlocal⟩ := local_scan? h.wellFormed _ _ _ hscan
  have hlength : front.length = n := by
    have := congrArg List.length hfront
    simp only [List.length_append, List.length_drop] at this
    omega
  have htake : buf.slice? position n = some front := by
    rw [Bytes.slice?_eq_some_iff, hfront, ← hlength, List.take_left]
    exact ⟨hlength ▸ hle, rfl⟩
  obtain ⟨hplace, hsame⟩ := Bytes.slice?_eq_some_iff.mp (hslice.trans htake)
  refine (decode_eq_ok_iff_scan? h hother).mpr ⟨hplace, ?_⟩
  have hsplit : other.drop place = front ++ other.drop (place + n) := by
    rw [← hsame, ← List.drop_drop, List.take_append_drop]
  rw [hsplit, hlocal]

/-- Reading a packet fails where the bytes run out or a size field is negative. -/
theorem decode_blamesBytes (h : d.Sound) (hlt : buf.length < Size.largest) :
    BlamesBytes buf (d.decode buf position) := by
  rw [decode]
  refine (Codec.blamesBytes_ensure _).bind fun _ _ => ?_
  refine (h.wellFormed.decodeFrom_blamesBytes hlt position).bind fun _ _ => ?_
  exact (Codec.blamesBytes_ensure _).bind fun _ _ => blamesBytes_ok _

end Descriptor

namespace PacketSchema

/-- At every position of every buffer, as many bytes as a size can count, `decode` reads a record
and the length of its packet exactly when the left-to-right reader reads that record behind the
position and takes as many bytes: first the header bytes, then the declared fields in wire order,
then the sequence byte. It fails only where the bytes run out or a size field is negative, and what
it reads depends on the bytes taken alone, wherever they stand. -/
theorem decode_iff_scan {schema : PacketSchema} {table : TypeTable} {d : Descriptor}
    (hcompile : schema.compile table = .ok d) {buf : Bytes} (hlt : buf.length < Size.largest) :
    d = .ofSchema schema d.layout ∧ d.layout.start = schema.headerLength ∧
      d.layout.Follows table schema.fields ∧ d.layout.WellFormed ∧
      ∀ position record n,
        (d.decode buf position = .ok (record, n) ↔ position + n ≤ buf.length ∧
          d.scan? (buf.drop position) = some (record, buf.drop (position + n))) ∧
        BlamesBytes buf (d.decode buf position) ∧
        (d.decode buf position = .ok (record, n) →
          ∀ (other : Bytes) (place : Nat), other.length < Size.largest →
            other.slice? place n = buf.slice? position n →
            d.decode other place = .ok (record, n)) := by
  have hcompiles := compile_ok hcompile
  refine ⟨hcompiles.eq_ofSchema, hcompiles.layout.start_eq, hcompiles.layout.follows,
    hcompiles.layout.wellFormed, ?_⟩
  intro position record n
  refine ⟨Descriptor.decode_eq_ok_iff_scan? hcompiles.sound hlt,
    Descriptor.decode_blamesBytes hcompiles.sound hlt, ?_⟩
  intro hdecode other place hother hslice
  exact Descriptor.decode_of_slice? hcompiles.sound hlt hdecode hother hslice

/-- A packet between other bytes, and the same packet elsewhere. -/
theorem inventory_between : ∃ d record, Inventory.schema.compile Inventory.types = .ok d ∧
    d.scan? (Inventory.packet ++ [0xaa]) = some (record, [0xaa]) ∧
      d.decode ([0x55, 0x55] ++ Inventory.packet ++ [0xaa]) 2 = .ok (record, 25) ∧
      d.decode (0x66 :: Inventory.packet) 1 = .ok (record, 25) := by
  obtain ⟨d, hcompile, hencode⟩ := Inventory.encodes
  obtain ⟨record, -, hwhole⟩ :=
    Descriptor.decode_of_encode (PacketSchema.compile_ok hcompile).sound hencode
  obtain ⟨-, -, -, -, hpacket⟩ :=
    decode_iff_scan hcompile (show Inventory.packet.length < Size.largest by decide)
  obtain ⟨-, -, -, -, hbetween⟩ := decode_iff_scan hcompile
    (show ([0x55, 0x55] ++ Inventory.packet ++ [0xaa]).length < Size.largest by decide)
  have hmoved := (hpacket 0 record 25).2.2 hwhole
  have hdecode := hmoved ([0x55, 0x55] ++ Inventory.packet ++ [0xaa]) 2 (by decide) (by decide)
  exact ⟨d, record, hcompile, ((hbetween 2 record 25).1.mp hdecode).2, hdecode,
    hmoved (0x66 :: Inventory.packet) 1 (by decide) (by decide)⟩

end PacketSchema

end PacketWire
