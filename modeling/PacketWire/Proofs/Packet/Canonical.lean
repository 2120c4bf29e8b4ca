import PacketWire.Proofs.Packet.Cursor
import PacketWire.Proofs.Wire.Canonical

/-!
# Canonical packets

A packet is canonical when it has its own header bytes in front, canonical fields behind them, and a
zero for its sequence byte. Writing undoes reading on these, and writes nothing else.

* `Descriptor.encode_of_decode`: a canonical packet that is read is what its record is written as.
* `Descriptor.canonical_of_encode`: what is written is canonical.
* `PacketSchema.encode_iff_canonical`: so it is for every compiled schema.
-/

namespace PacketWire

/-- Bytes of which a strict reader of the packet would not complain. -/
structure Descriptor.Canonical (d : Descriptor) (bytes : Bytes) : Prop where
  header : d.key.bytes <+: bytes
  fields : d.layout.isCanonical bytes = true
  sequence : d.sequence?.toList <:+ bytes

namespace Descriptor

variable {d : Descriptor} {record : Record} {bytes : Bytes}

/-- A canonical packet that is read as a whole is what its record is written as. -/
theorem encode_of_decode (h : d.Sound) (hlt : bytes.length < Size.largest)
    (hdecode : d.decode bytes 0 = .ok (record, bytes.length)) (hcanonical : d.Canonical bytes) :
    d.encode record = .ok bytes := by
  obtain ⟨-, hscan⟩ := scan_decode? h hlt hdecode
  rw [Nat.zero_add, List.drop_zero, List.drop_length] at hscan
  obtain ⟨⟨found, behind⟩, hfound, hpair⟩ := Option.bind_eq_some_iff.mp hscan
  obtain ⟨⟨trailer, last⟩, htake, hs⟩ := Option.map_eq_some_iff.mp hpair
  cases hs
  obtain ⟨htrailer, hbehind⟩ := Scan.take_eq_some_iff.mp htake
  rw [List.append_nil] at hbehind
  subst hbehind
  obtain ⟨head, body, hhead, hbytes, hserial⟩ :=
    h.wellFormed.restores bytes record behind hfound hcanonical.fields
  obtain ⟨rest, hheader⟩ := hcanonical.header
  obtain ⟨front, hsequence⟩ := hcanonical.sequence
  -- both stand where the reader has cut the bytes, as they have the lengths it has cut off
  have hkey : d.key.bytes = head :=
    (List.append_inj (hheader.trans hbytes) (h.start_eq.symm.trans hhead.symm)).1
  have htail : d.sequence?.toList = behind := by
    rw [← List.append_assoc] at hbytes
    exact (List.append_inj' (hsequence.trans hbytes)
      (d.trailerLength_eq.symm.trans htrailer.symm)).2
  refine (encode_eq_ok_iff h).mpr ⟨wire?_eq_some_iff.mpr ⟨body, hserial, ?_⟩, Nat.lt_of_lt_pred hlt⟩
  rw [hkey, htail, ← hbytes]

/-- What is written is canonical. -/
theorem canonical_of_encode (h : d.Sound) (hencode : d.encode record = .ok bytes) :
    d.Canonical bytes := by
  obtain ⟨hwire, -⟩ := (encode_eq_ok_iff h).mp hencode
  obtain ⟨body, hbody, rfl⟩ := wire?_eq_some_iff.mp hwire
  exact ⟨List.prefix_append _ _, h.wellFormed.canonises record body hbody _ _ h.start_eq.symm,
    ⟨d.key.bytes ++ body, List.append_assoc _ _ _⟩⟩

end Descriptor

namespace PacketSchema

variable {schema : PacketSchema} {table : TypeTable} {d : Descriptor}

/-- Canonical bytes that a compiled schema reads as one packet, as many as a size can count, are
what the record is written as. What it writes is canonical and is read as one packet. So the packets
that can be written are the canonical bytes that can be read. -/
theorem encode_iff_canonical (hcompile : schema.compile table = .ok d) :
    d = .ofSchema schema d.layout ∧ d.layout.Follows table schema.fields ∧
      (∀ (bytes : Bytes) (record : Record), bytes.length < Size.largest →
        d.decode bytes 0 = .ok (record, bytes.length) → d.Canonical bytes →
        d.encode record = .ok bytes) ∧
      (∀ (bytes : Bytes) (record : Record), d.encode record = .ok bytes →
        d.Canonical bytes ∧ ∃ normal, d.decode bytes 0 = .ok (normal, bytes.length)) ∧
      ∀ bytes : Bytes, bytes.length < Size.largest →
        ((∃ record, d.encode record = .ok bytes) ↔
          d.Canonical bytes ∧ ∃ record, d.decode bytes 0 = .ok (record, bytes.length)) := by
  have hcompiles := compile_ok hcompile
  have hread : ∀ (bytes : Bytes) (record : Record), bytes.length < Size.largest →
      d.decode bytes 0 = .ok (record, bytes.length) → d.Canonical bytes →
      d.encode record = .ok bytes := fun bytes record hlt hdecode hcanonical =>
    Descriptor.encode_of_decode hcompiles.sound hlt hdecode hcanonical
  have hwritten : ∀ (bytes : Bytes) (record : Record), d.encode record = .ok bytes →
      d.Canonical bytes ∧ ∃ normal, d.decode bytes 0 = .ok (normal, bytes.length) := by
    intro bytes record hencode
    obtain ⟨normal, -, hdecode⟩ := Descriptor.decode_of_encode hcompiles.sound hencode
    exact ⟨Descriptor.canonical_of_encode hcompiles.sound hencode, normal, hdecode⟩
  refine ⟨hcompiles.eq_ofSchema, hcompiles.layout.follows, hread, hwritten,
    fun bytes hlt => ⟨?_, ?_⟩⟩
  · rintro ⟨record, hencode⟩
    exact hwritten bytes record hencode
  · rintro ⟨hcanonical, record, hdecode⟩
    exact ⟨record, hread bytes record hlt hdecode hcanonical⟩

/-- The packet of the inventory is canonical, and is what is written for the record that is read
from it. With a two for the true boolean of its first item it can be read too, but no record is
written so. -/
theorem inventory_canonical : ∃ d record loose, Inventory.schema.compile Inventory.types = .ok d ∧
    d.Canonical Inventory.packet ∧ d.decode Inventory.packet 0 = .ok (record, 25) ∧
      d.encode record = .ok Inventory.packet ∧
      d.decode (Inventory.packet.set 7 2) 0 = .ok (loose, 25) ∧
      ∀ other, d.encode other ≠ .ok (Inventory.packet.set 7 2) := by
  obtain ⟨d, hcompile, hencode⟩ := Inventory.encodes
  obtain ⟨-, -, hread, hwritten, -⟩ := encode_iff_canonical hcompile
  obtain ⟨hcanonical, record, hdecode⟩ := hwritten _ _ hencode
  have hrun : (Inventory.schema.compile Inventory.types).toOption.map (fun d =>
      ((d.decode (Inventory.packet.set 7 2) 0).toOption.map (·.2),
        d.layout.isCanonical (Inventory.packet.set 7 2))) = some (some 25, false) := by
    decide +kernel
  rw [hcompile] at hrun
  obtain ⟨hlength, hstrict⟩ := Prod.mk.inj (Option.some.inj hrun)
  obtain ⟨⟨loose, n⟩, hloose, rfl⟩ := Option.map_eq_some_iff.mp hlength
  refine ⟨d, record, loose, hcompile, hcanonical, hdecode,
    hread _ _ (by decide) hdecode hcanonical, toOption_eq_some_iff.mp hloose,
    fun other hother => ?_⟩
  rw [(hwritten _ other hother).1.fields] at hstrict
  cases hstrict

end PacketSchema

end PacketWire
