import PacketWire.Proofs.Packet.RoundTrip

/-!
# The window of a packet

A packet that is written into a buffer covers one window of it: every byte of the window on
success, whatever was there before, and no byte outside the window on failure.

* `Descriptor.encodeInto_run`: what writing does to a buffer, whether it succeeds or not.
* `PacketSchema.encodeInto_window`: writing into a buffer puts there what `encode` builds.
-/

namespace PacketWire

namespace Descriptor

variable {d : Descriptor} {record : Record} {position : Nat} {p : Plan}

/-- Where the length that is foreseen keeps the end of a packet a size, so do its two parts. -/
theorem lt_limit_of_encodedLength {n : Nat} (hlength : d.encodedLength record = .ok n)
    (hlt : position + n < Size.limit) (m : Nat) (hm : d.layout.encodedLength record = .ok m) :
    position + (m + d.trailerLength) < Size.limit := by
  obtain ⟨p, hplan, rfl, -⟩ := encodedLength_eq_ok_iff.mp hlength
  rw [Layout.encodedLength, hplan] at hm
  cases hm
  exact hlt

/-- Where a record has no plan, nothing is written. -/
theorem encodeInto_of_error {fault : CodecError} (hplan : d.layout.plan record = .error fault)
    (buf : Bytes) : d.encodeInto record position buf = .error fault buf := by
  rw [encodeInto, hplan]
  rfl

section

variable (hplan : d.layout.plan record = .ok p) {buf : Bytes}
include hplan

/-- Where the buffer ends before the packet would, nothing is written. -/
theorem encodeInto_of_short (hshort : buf.length < position + (p.length + d.trailerLength)) :
    d.encodeInto record position buf =
      .error (.bufferTooShort (position + (p.length + d.trailerLength)) buf.length) buf := by
  have hensure : Write.ensure (position + (p.length + d.trailerLength)) buf =
      .error (.bufferTooShort (position + (p.length + d.trailerLength)) buf.length) buf := by
    show Write.lift (Codec.ensure buf _) buf = _
    rw [Codec.ensure, if_pos hshort]
    rfl
  rw [encodeInto_eq hplan, Write.bind_apply, hensure]

/-- Where the buffer has room for the packet, its window holds the wire form of the record, or what
was written before the fault. -/
theorem encodeInto_of_plan (h : d.Sound)
    (hlt : position + (p.length + d.trailerLength) < Size.limit)
    (hlong : position + (p.length + d.trailerLength) ≤ buf.length) :
    ∃ src : Bytes, src.length = p.length + d.trailerLength ∧
      match d.encodeInto record position buf with
      | .ok n buf' => d.wire? record = some src ∧ n = p.length + d.trailerLength ∧
          buf' = buf.overwrite position src
      | .error _ buf' => d.wire? record = none ∧ buf' = buf.overwrite position src := by
  obtain ⟨src, hsrc, hrun⟩ :=
    Layout.fills_ensure (fills_write hplan h hlt) (Nat.le_refl _) buf hlong
  refine ⟨src, hsrc, ?_⟩
  rw [encodeInto_eq hplan, ← bind_assoc, Write.bind_apply]
  cases hw : (Write.ensure (position + (p.length + d.trailerLength)) >>= fun _ =>
      d.write record p position) buf with
  | ok _ buf' =>
    rw [hw] at hrun
    exact ⟨hrun.1, rfl, hrun.2⟩
  | error fault buf' =>
    rw [hw] at hrun
    exact ⟨hrun.1.1, hrun.2⟩

end

/-- What writing a packet does to a buffer. -/
theorem encodeInto_run (h : d.Sound)
    (hlt : ∀ n, d.layout.encodedLength record = .ok n →
      position + (n + d.trailerLength) < Size.limit) (buf : Bytes) :
    match d.encodeInto record position buf with
    | .ok n buf' => ∃ bytes, d.encode record = .ok bytes ∧ bytes.length = n ∧
        position + n ≤ buf.length ∧ buf' = buf.overwrite position bytes
    | .error _ buf' =>
      (∀ bytes, d.encode record = .ok bytes → buf.length < position + bytes.length) ∧
        (buf' = buf ∨ ∃ src : Bytes, d.encodedLength record = .ok src.length ∧
          position + src.length ≤ buf.length ∧ buf' = buf.overwrite position src) := by
  cases hplan : d.layout.plan record with
  | error fault =>
    have hencode : d.encode record = .error fault := by
      rw [encode, encodedLength, Layout.encodedLength, hplan]
      rfl
    rw [encodeInto_of_error hplan]
    exact ⟨fun bytes hbytes => by simp [hencode] at hbytes, .inl rfl⟩
  | ok p =>
    have hlt := hlt p.length (bind_eq_ok_iff.mpr ⟨p, hplan, rfl⟩)
    have hlength : d.encodedLength record = .ok (p.length + d.trailerLength) :=
      encodedLength_eq_ok_iff.mpr ⟨p, hplan, rfl, by omega⟩
    by_cases hlong : position + (p.length + d.trailerLength) ≤ buf.length
    · obtain ⟨src, hsrc, hrun⟩ := encodeInto_of_plan hplan h hlt hlong
      cases hresult : d.encodeInto record position buf with
      | ok m after =>
        rw [hresult] at hrun
        obtain ⟨hwire, rfl, rfl⟩ := hrun
        exact ⟨src, (encode_eq_ok_iff h).mpr ⟨hwire, by omega⟩, hsrc, hlong, rfl⟩
      | error fault after =>
        rw [hresult] at hrun
        obtain ⟨hwire, rfl⟩ := hrun
        refine ⟨fun bytes hbytes => ?_, .inr ⟨src, by rw [hlength, hsrc], by omega, rfl⟩⟩
        rw [((encode_eq_ok_iff h).mp hbytes).1] at hwire
        cases hwire
    · rw [encodeInto_of_short hplan (Nat.not_le.mp hlong)]
      refine ⟨fun bytes hbytes => ?_, .inl rfl⟩
      have hsame := encodedLength_of_encode h hbytes
      rw [hlength] at hsame
      rw [← Except.ok.inj hsame]
      exact Nat.not_le.mp hlong

end Descriptor

namespace PacketSchema

/-- Writing a record into a buffer, at a position that leaves the end of the packet a size, puts
the bytes that `encode` builds over the window of their length, and that exactly when there are such
bytes and the buffer has the window. Where it fails, the bytes outside the window are as before; all
bytes are when the record has no length or the buffer is too short. -/
theorem encodeInto_window {schema : PacketSchema} {table : TypeTable} {d : Descriptor}
    (hcompile : schema.compile table = .ok d) {record : Record} {position : Nat}
    (hlt : ∀ n, d.layout.encodedLength record = .ok n →
      position + (n + d.trailerLength) < Size.limit) (buf : Bytes) :
    (∀ n buf', (d.encodeInto record position).run buf = .ok n buf' ↔
      ∃ bytes, d.encode record = .ok bytes ∧ bytes.length = n ∧ position + n ≤ buf.length ∧
        buf' = buf.take position ++ bytes ++ buf.drop (position + n)) ∧
      ∀ fault buf', (d.encodeInto record position).run buf = .error fault buf' →
        (∀ other, d.encodedLength record = .error other → buf' = buf) ∧
          ∀ n, d.encodedLength record = .ok n →
            (buf.length < position + n → buf' = buf) ∧ buf'.length = buf.length ∧
              ∀ i, i < position ∨ position + n ≤ i → buf'[i]? = buf[i]? := by
  have hrun := Descriptor.encodeInto_run (compile_ok hcompile).sound hlt buf
  unfold EStateM.run
  cases hresult : d.encodeInto record position buf with
  | ok m after =>
    rw [hresult] at hrun
    obtain ⟨bytes, hencode, rfl, hlong, rfl⟩ := hrun
    constructor
    · intro n buf'
      constructor
      · rintro ⟨⟩
        exact ⟨bytes, hencode, rfl, hlong, rfl⟩
      · rintro ⟨other, hother, rfl, -, rfl⟩
        rw [hencode] at hother
        cases hother
        rfl
    · rintro _ _ ⟨⟩
  | error fault after =>
    rw [hresult] at hrun
    obtain ⟨hshort, hafter⟩ := hrun
    constructor
    · intro n buf'
      constructor
      · rintro ⟨⟩
      · rintro ⟨bytes, hencode, rfl, hlong, -⟩
        exact absurd hlong (Nat.not_le.mpr (hshort bytes hencode))
    · rintro _ _ ⟨⟩
      obtain rfl | ⟨src, hlength, hlong, rfl⟩ := hafter
      · simp
      · refine ⟨fun other hother => ?_, fun n hn => ?_⟩
        · rw [hlength] at hother
          cases hother
        · rw [hlength] at hn
          cases hn
          exact ⟨fun hshort => absurd hlong (Nat.not_le.mpr hshort), Bytes.length_overwrite hlong,
            fun i hi => Bytes.getElem?_overwrite hlong hi⟩

/-- The inventory between other bytes, the inventory in a buffer that ends too soon, and an
inventory whose title is found not to be ASCII when its items are written already. -/
theorem inventory_window : ∃ d, Inventory.schema.compile Inventory.types = .ok d ∧
    (d.encodeInto Inventory.record 3).run (List.replicate 30 0xee) =
      .ok 25 (List.replicate 3 0xee ++ Inventory.packet ++ List.replicate 2 0xee) ∧
      (∃ fault, (d.encodeInto Inventory.record 3).run (List.replicate 27 0xee) =
        .error fault (List.replicate 27 0xee)) ∧
      ∃ fault buf', (d.encodeInto (Inventory.record.set "title" (.text "né")) 3).run
          (List.replicate 30 0xee) = .error fault buf' ∧ buf'.length = 30 ∧
        ∀ i < 30, i < 3 ∨ 28 ≤ i → buf'[i]? = some 0xee := by
  have hrun : (Inventory.schema.compile Inventory.types).toOption.map (fun d =>
      let records := [Inventory.record, Inventory.record.set "title" (.text "né")]
      (records.map fun record => (d.encodedLength record).toOption,
        records.map fun record => (d.encode record).toOption)) =
      some ([some 25, some 25], [some Inventory.packet, none]) := by
    decide +kernel
  obtain ⟨d, hcompile, hfound⟩ := Option.map_eq_some_iff.mp hrun
  rw [toOption_eq_some_iff] at hcompile
  simp only [List.map_cons, List.map_nil, List.cons.injEq, Prod.mk.injEq, toOption_eq_some_iff,
    and_true] at hfound
  obtain ⟨⟨hlength, hlength'⟩, hencode, hfails⟩ := hfound
  have hfits : 3 + 25 < Size.limit := by decide
  have hwrites := encodeInto_window hcompile (Descriptor.lt_limit_of_encodedLength hlength hfits)
  have hwrites' := encodeInto_window hcompile (Descriptor.lt_limit_of_encodedLength hlength' hfits)
    (List.replicate 30 0xee)
  refine ⟨d, hcompile, ?_, ?_, ?_⟩
  · exact ((hwrites (List.replicate 30 0xee)).1 _ _).mpr
      ⟨_, hencode, by decide, by decide, by decide⟩
  · obtain ⟨hok, herror⟩ := hwrites (List.replicate 27 0xee)
    cases hresult : (d.encodeInto Inventory.record 3).run (List.replicate 27 0xee) with
    | ok n buf' =>
      obtain ⟨bytes, hbytes, rfl, hlong, -⟩ := (hok n buf').mp hresult
      rw [hencode] at hbytes
      cases hbytes
      exact absurd hlong (by decide)
    | error fault buf' =>
      rw [((herror fault buf' hresult).2 25 hlength).1 (by decide)]
      exact ⟨fault, rfl⟩
  · obtain ⟨hok, herror⟩ := hwrites'
    cases hresult : (d.encodeInto (Inventory.record.set "title" (.text "né")) 3).run
        (List.replicate 30 0xee) with
    | ok n buf' =>
      obtain ⟨bytes, hbytes, -⟩ := (hok n buf').mp hresult
      rw [hbytes] at hfails
      cases hfails
    | error fault buf' =>
      obtain ⟨-, hsame, hbeside⟩ := (herror fault buf' hresult).2 25 hlength'
      refine ⟨fault, buf', rfl, hsame, fun i hi hout => ?_⟩
      rw [hbeside i hout, List.getElem?_replicate, if_pos hi]

end PacketSchema

end PacketWire
