import PacketWire.Proofs.Codec.Measure
import PacketWire.Proofs.Packet.Encode

/-!
# Packets off the wire

Reading a packet in a buffer is reading its bytes from left to right, and the length that a buffer
announces is the length that reading takes.

* `Descriptor.decode_scan?`: what the left-to-right reader reads, `decode` reads.
* `Descriptor.scan_wire?`: a wire form is read back as the normal form of its record.
* `Descriptor.frameLength_of_decode`: a packet that can be read has the length it announces.
* `Descriptor.frameLength_append`: an announced length or a fault stays, whatever follows.
* `Descriptor.frameLength_none_append`: a length that is announced later is beyond what was there.
-/

namespace PacketWire

namespace Descriptor

theorem wire?_eq_some_iff {d : Descriptor} {record : Record} {bytes : Bytes} :
    d.wire? record = some bytes ↔ ∃ body, d.layout.serial? record = some body ∧
      d.key.bytes ++ (body ++ d.sequence?.toList) = bytes := by
  rw [wire?_eq, Option.map_eq_some_iff]
  rfl

/-! ## Reading -/

theorem decode_eq_ok_iff {d : Descriptor} {buf : Bytes} {position n : Nat} {record : Record} :
    d.decode buf position = .ok (record, n) ↔
      position + d.staticSize ≤ buf.length ∧ ∃ length,
        d.layout.decodeFrom buf position = .ok (record, length) ∧
        Size.addSat length d.trailerLength = n ∧ Size.addSat position n ≤ buf.length := by
  rw [decode]
  simp only [bind_eq_ok_iff, pure_eq_ok_iff, Prod.exists, Prod.mk.injEq]
  constructor
  · rintro ⟨_, hensure, found, length, hread, _, hstop, rfl, rfl⟩
    exact ⟨Codec.ensure_eq_ok_iff.mp hensure, length, hread, rfl, Codec.ensure_eq_ok_iff.mp hstop⟩
  · rintro ⟨hensure, length, hread, rfl, hstop⟩
    exact ⟨(), Codec.ensure_eq_ok_iff.mpr hensure, record, length, hread, (),
      Codec.ensure_eq_ok_iff.mpr hstop, rfl, rfl⟩

/-- Reading takes no more than there is. -/
theorem consumed_le_of_decode {d : Descriptor} {buf : Bytes} {n : Nat} {record : Record}
    (h : d.decode buf 0 = .ok (record, n)) : n ≤ buf.length := by
  obtain ⟨-, length, -, rfl, hle⟩ := decode_eq_ok_iff.mp h
  unfold Size.addSat at hle ⊢
  omega

/-- What the left-to-right reader reads behind a position, `decode` reads there. -/
theorem decode_scan? {d : Descriptor} (h : d.layout.WellFormed) {buf rest : Bytes} {position : Nat}
    {record : Record} (hlt : buf.length < Size.limit) (hpos : position ≤ buf.length)
    (hscan : d.scan? (buf.drop position) = some (record, rest)) :
    ∃ n, d.decode buf position = .ok (record, n) ∧ position + n ≤ buf.length ∧
      rest = buf.drop (position + n) := by
  obtain ⟨⟨found, behind⟩, hfound, hpair⟩ := Option.bind_eq_some_iff.mp hscan
  obtain ⟨⟨trailer, last⟩, htake, hs⟩ := Option.map_eq_some_iff.mp hpair
  cases hs
  obtain ⟨length, hread, hle, -, hstop, rfl⟩ := h.reads buf position record behind hlt hpos hfound
  obtain ⟨hend, -, hrest⟩ := Scan.take_drop hstop htake
  rw [Nat.add_assoc] at hend hrest
  refine ⟨length + d.trailerLength, decode_eq_ok_iff.mpr ⟨?_, length, hread, ?_, ?_⟩, hend, hrest⟩
  · unfold staticSize
    omega
  · exact Size.addSat_eq (show length + d.trailerLength ≤ buf.length by omega) hlt
  · exact Size.addSat_le hend

/-- A wire form is read back as the normal form of its record, whatever stands behind. -/
theorem scan_wire? {d : Descriptor} (h : d.Sound) {record : Record} {bytes : Bytes}
    (hwire : d.wire? record = some bytes) (rest : Bytes) :
    ∃ normal, d.layout.normal? record = some normal ∧
      d.scan? (bytes ++ rest) = some (normal, rest) := by
  obtain ⟨body, hbody, rfl⟩ := wire?_eq_some_iff.mp hwire
  obtain ⟨normal, hnormal, hscan⟩ := h.wellFormed.rereads record body hbody d.key.bytes
    (d.sequence?.toList ++ rest) h.start_eq.symm
  refine ⟨normal, hnormal, ?_⟩
  have htake := Scan.take_append d.trailerLength_eq.symm rest
  rw [scan?, show d.key.bytes ++ (body ++ d.sequence?.toList) ++ rest =
    d.key.bytes ++ (body ++ (d.sequence?.toList ++ rest)) by simp, hscan]
  simp only [Option.bind_some, htake, Option.map_some]

/-! ## Announced lengths -/

theorem frameLength_eq (d : Descriptor) (buf : Bytes) :
    d.frameLength buf =
      if buf.length < d.staticSize then .ok none
      else if d.isDynamic then
        (d.layout.measure buf 0).map (·.map (Size.addSat · d.trailerLength))
      else .ok (some d.staticSize) := by
  rw [frameLength]
  split
  · rfl
  · cases d.isDynamic with
    | false => rfl
    | true => cases d.layout.measure buf 0 <;> rfl

/-- A packet that can be read has the length it announces. -/
theorem frameLength_of_decode {d : Descriptor} (h : d.layout.WellFormed) {buf : Bytes}
    {record : Record} {n : Nat} (hlt : buf.length < Size.limit)
    (hdecode : d.decode buf 0 = .ok (record, n)) : d.frameLength buf = .ok (some n) := by
  obtain ⟨hstatic, length, hread, rfl, hstop⟩ := decode_eq_ok_iff.mp hdecode
  rw [Nat.zero_add] at hstatic
  rw [frameLength_eq, if_neg (Nat.not_lt.mpr hstatic)]
  by_cases hdynamic : d.isDynamic = true
  · rw [if_pos hdynamic, h.measures buf 0 record length hread]
    rfl
  · rw [if_neg hdynamic]
    obtain ⟨values, spans, -, hlength, -⟩ := Layout.decodeFrom_eq_ok_iff.mp hread
    have hfixed := Codec.length_of_locate_stop (Bool.eq_false_iff.mpr hdynamic) hlength
    rw [hfixed, Size.addSat_eq hstatic hlt]
    rfl

/-- An announced length or a fault stays, whatever follows. -/
theorem frameLength_append {d : Descriptor} (h : d.layout.WellFormed) {buf : Bytes}
    (hsettled : Layout.Settled buf (d.frameLength buf)) (more : Bytes) :
    d.frameLength (buf ++ more) = d.frameLength buf := by
  rw [frameLength_eq] at hsettled ⊢
  rw [frameLength_eq]
  by_cases hshort : buf.length < d.staticSize
  · rw [if_pos hshort] at hsettled
    exact hsettled.elim
  · have hlong : ¬(buf ++ more).length < d.staticSize := by
      rw [List.length_append]
      omega
    rw [if_neg hshort] at hsettled ⊢
    rw [if_neg hlong]
    by_cases hdynamic : d.isDynamic = true
    · rw [if_pos hdynamic] at hsettled ⊢
      rw [if_pos hdynamic, h.stable buf more 0]
      cases hmeasure : d.layout.measure buf 0 with
      | error fault =>
        rw [hmeasure] at hsettled
        exact hsettled
      | ok found =>
        rw [hmeasure] at hsettled
        cases found with
        | none => exact hsettled
        | some length => exact trivial
    · rw [if_neg hdynamic, if_neg hdynamic]

theorem frameLength_eq_some {d : Descriptor} {buf : Bytes} {n : Nat}
    (h : d.frameLength buf = .ok (some n)) :
    d.staticSize ≤ buf.length ∧ (¬d.isDynamic = true ∧ n = d.staticSize ∨ ∃ length,
      d.layout.measure buf 0 = .ok (some length) ∧ n = Size.addSat length d.trailerLength) := by
  rw [frameLength_eq] at h
  split at h
  · cases h
  · next hlong =>
    refine ⟨Nat.not_lt.mp hlong, ?_⟩
    split at h
    · cases hmeasure : d.layout.measure buf 0 with
      | error fault =>
        rw [hmeasure] at h
        cases h
      | ok found =>
        rw [hmeasure] at h
        cases found with
        | none => cases h
        | some length =>
          cases h
          exact .inr ⟨length, rfl, rfl⟩
    · next hdynamic =>
      cases h
      exact .inl ⟨hdynamic, rfl⟩

theorem staticSize_le_of_measure {d : Descriptor} {buf : Bytes} {length : Nat}
    (h : d.layout.measure buf 0 = .ok (some length)) : d.staticSize ≤ length + d.trailerLength :=
  Nat.add_le_add_right (Layout.staticSize_le_of_measure h) _

/-- An announced length covers what every such packet has. -/
theorem staticSize_le_of_frameLength {d : Descriptor} {buf : Bytes} {n : Nat}
    (hlt : buf.length < Size.limit) (h : d.frameLength buf = .ok (some n)) : d.staticSize ≤ n := by
  obtain ⟨hlong, ⟨-, rfl⟩ | ⟨length, hmeasure, rfl⟩⟩ := frameLength_eq_some h
  · exact Nat.le_refl _
  · have := staticSize_le_of_measure hmeasure
    unfold Size.addSat Size.largest
    omega

/-- A length that is announced later is beyond what was there. -/
theorem frameLength_none_append {d : Descriptor} (h : d.layout.WellFormed) {buf more : Bytes}
    {n : Nat} (hlt : buf.length < Size.largest) (hnone : d.frameLength buf = .ok none)
    (hsome : d.frameLength (buf ++ more) = .ok (some n)) : buf.length < n := by
  rw [frameLength_eq] at hnone
  obtain ⟨-, hlonger⟩ := frameLength_eq_some hsome
  split at hnone
  · next hshort =>
    obtain ⟨-, rfl⟩ | ⟨length, hmeasure, rfl⟩ := hlonger
    · exact hshort
    · have := staticSize_le_of_measure hmeasure
      unfold Size.addSat
      omega
  · split at hnone
    · next hdynamic =>
      obtain ⟨hfixed, -⟩ | ⟨length, hmeasure, rfl⟩ := hlonger
      · exact absurd hdynamic hfixed
      · cases hfirst : d.layout.measure buf 0 with
        | error fault =>
          rw [hfirst] at hnone
          cases hnone
        | ok found =>
          rw [hfirst] at hnone
          cases found with
          | some length => cases hnone
          | none =>
            have := h.outlasts buf more 0 length hfirst hmeasure
            unfold Size.addSat
            omega
    · cases hnone

end Descriptor

end PacketWire
