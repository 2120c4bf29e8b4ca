import PacketWire.Proofs.Codec.Fault
import PacketWire.Proofs.Packet.Registry
import PacketWire.Stream.FrameReader

/-!
# One packet off a stream

What taking one packet off the front of a buffer does, and what becomes of the answer when more
bytes stand behind the buffer.

* `FrameReader.next_frame`: a packet takes at least one byte, and exactly its length, off the front.
* `FrameReader.next_append`: a packet that is there stays there, and a fault stays a fault.
* `FrameReader.next_encoded`, `FrameReader.next_partial`: an encoded packet is taken off whatever
  stands behind it, and waited for until it is whole.
-/

namespace PacketWire

/-- The fault of a length beyond the limit. -/
def ProtocolError.IsOversized (fault : ProtocolError) : Prop :=
  ∃ length, fault = .oversizedFrame length

/-- What a packet is taken off a stream as. -/
def Frame.IsOf (frame : Frame) (packet : Descriptor × Bytes) : Prop :=
  frame.descriptor = packet.1 ∧ frame.length = packet.2.length ∧
    packet.1.decode packet.2 0 = .ok (frame.record, packet.2.length)

namespace FrameReader

variable {reader : FrameReader}

/-! ## Selecting a packet -/

theorem resolve_cons (header : UInt8) (rest : Bytes) :
    reader.resolve (header :: rest) =
      match reader.registry.lookup reader.direction header with
      | none => .error (.unknownHeader header)
      | some d =>
        if d.isFamily then
          match rest with
          | [] => .ok none
          | sub :: _ =>
            match reader.registry.lookupSub reader.direction header sub with
            | some d => .ok (some d)
            | none => .error (.unknownSubHeader header sub)
        else .ok (some d) := by
  unfold resolve
  dsimp only
  cases reader.registry.lookup reader.direction header with
  | none => rfl
  | some d =>
    dsimp only
    cases d.isFamily with
    | false => rfl
    | true => cases rest <;> rfl

/-- The packet that is selected is no family. -/
theorem resolve_sound (h : reader.registry.Sound) {buf : Bytes} {d : Descriptor}
    (hresolve : reader.resolve buf = .ok (some d)) : d.Sound := by
  cases buf with
  | nil => cases hresolve
  | cons header rest =>
    rw [resolve_cons] at hresolve
    split at hresolve
    · cases hresolve
    · next found hfound =>
      split at hresolve
      · split at hresolve
        · cases hresolve
        · split at hresolve
          · next sub _ _ hsub =>
            cases hresolve
            rcases h.get? hsub with ⟨-, -, hsound⟩ | ⟨hnone, -⟩
            · exact hsound
            · cases hnone
          · cases hresolve
      · next hfamily =>
        cases hresolve
        rcases h.get? hfound with ⟨-, -, hsound⟩ | ⟨-, direction, rfl⟩
        · exact hsound
        · exact absurd rfl hfamily

/-- Once the first bytes select a packet, or none, more bytes change nothing. -/
theorem resolve_append {buf : Bytes} (h : reader.resolve buf ≠ .ok none) (more : Bytes) :
    reader.resolve (buf ++ more) = reader.resolve buf := by
  cases buf with
  | nil => exact absurd rfl h
  | cons header rest =>
    rw [List.cons_append, resolve_cons, resolve_cons]
    rw [resolve_cons] at h
    cases hlookup : reader.registry.lookup reader.direction header with
    | none => rfl
    | some d =>
      rw [hlookup] at h
      dsimp only at h ⊢
      by_cases hfamily : d.isFamily = true
      · rw [if_pos hfamily] at h ⊢
        rw [if_pos hfamily]
        cases rest with
        | nil => exact absurd rfl h
        | cons sub rest => rfl
      · rw [if_neg hfamily, if_neg hfamily]

/-! ## Taking a packet off -/

/-- What taking a packet off does, once it is selected. -/
theorem next_of_resolve {buf : Bytes} {d : Descriptor} (h : reader.resolve buf = .ok (some d)) :
    reader.next buf =
      match d.frameLength buf with
      | .error fault => .error (.codec fault)
      | .ok none =>
        if reader.maxFrameSize < buf.length then .error (.oversizedFrame buf.length) else .ok none
      | .ok (some length) =>
        if reader.maxFrameSize < length then .error (.oversizedFrame length)
        else if buf.length < length then .ok none
        else match d.decode (buf.take length) 0 with
          | .error fault => .error (.codec fault)
          | .ok (record, consumed) => .ok (some (⟨d, record, length⟩, buf.drop consumed)) := by
  unfold next checkSize
  rw [h]
  simp only [bind, Except.bind]
  cases d.frameLength buf with
  | error fault => rfl
  | ok found =>
    cases found with
    | none =>
      dsimp only [ProtocolError.ofCodec]
      by_cases hlimit : reader.maxFrameSize < buf.length
      · rw [if_pos hlimit, if_pos hlimit]
      · rw [if_neg hlimit, if_neg hlimit]
        rfl
    | some length =>
      dsimp only [ProtocolError.ofCodec]
      by_cases hlimit : reader.maxFrameSize < length
      · rw [if_pos hlimit, if_pos hlimit]
      · rw [if_neg hlimit, if_neg hlimit]
        dsimp only
        by_cases hshort : buf.length < length
        · rw [if_pos hshort, if_pos hshort]
          rfl
        · rw [if_neg hshort, if_neg hshort]
          cases d.decode (buf.take length) 0 with
          | error fault => rfl
          | ok pair => rfl

theorem next_of_unresolved {buf : Bytes} (h : reader.resolve buf = .ok none) :
    reader.next buf = .ok none := by
  unfold next
  rw [h]
  rfl

theorem next_of_unknown {buf : Bytes} {fault : ProtocolError}
    (h : reader.resolve buf = .error fault) : reader.next buf = .error fault := by
  unfold next
  rw [h]
  rfl

/-- When a packet is taken off. -/
theorem next_eq_frame {buf rest : Bytes} {frame : Frame}
    (h : reader.next buf = .ok (some (frame, rest))) :
    ∃ consumed, reader.resolve buf = .ok (some frame.descriptor) ∧
      frame.descriptor.frameLength buf = .ok (some frame.length) ∧
      frame.length ≤ reader.maxFrameSize ∧ frame.length ≤ buf.length ∧
      frame.descriptor.decode (buf.take frame.length) 0 = .ok (frame.record, consumed) ∧
      rest = buf.drop consumed := by
  cases hresolve : reader.resolve buf with
  | error fault =>
    rw [next_of_unknown hresolve] at h
    cases h
  | ok selected =>
    cases selected with
    | none =>
      rw [next_of_unresolved hresolve] at h
      cases h
    | some d =>
      rw [next_of_resolve hresolve] at h
      split at h
      · cases h
      · split at h <;> cases h
      · next length hlength =>
        split at h
        · cases h
        · next hlimit =>
          split at h
          · cases h
          · next hshort =>
            split at h
            · cases h
            · next record consumed hdecode =>
              cases h
              exact ⟨consumed, rfl, hlength, Nat.not_lt.mp hlimit, Nat.not_lt.mp hshort, hdecode,
                rfl⟩

theorem one_le_staticSize {d : Descriptor} (h : d.Sound) : 1 ≤ d.staticSize := by
  have hstart := h.start_eq
  have hle := h.wellFormed.coherent.start_le_staticSize
  rw [Descriptor.headerLength_eq] at hstart
  unfold Descriptor.staticSize
  omega

/-- What is read for a packet is at least one byte. -/
theorem one_le_of_decode {d : Descriptor} (h : d.Sound) {buf : Bytes} {record : Record} {n : Nat}
    (hdecode : d.decode buf 0 = .ok (record, n)) : 1 ≤ n := by
  obtain ⟨-, length, hread, rfl, -⟩ := Descriptor.decode_eq_ok_iff.mp hdecode
  have hstatic := one_le_staticSize h
  have hfixed := Layout.staticSize_le_of_decodeFrom hread
  rw [Descriptor.staticSize] at hstatic
  show 1 ≤ min (length + d.trailerLength) Size.largest
  have hlargest : 1 ≤ Size.largest := by decide
  omega

/-- A packet takes something off the front, however long the buffer is. -/
theorem length_lt_of_frame (h : reader.registry.Sound) {buf rest : Bytes} {frame : Frame}
    (hnext : reader.next buf = .ok (some (frame, rest))) : rest.length < buf.length := by
  obtain ⟨consumed, hresolve, -, -, -, hdecode, rfl⟩ := next_eq_frame hnext
  have hone := one_le_of_decode (resolve_sound h hresolve) hdecode
  have hle := Descriptor.consumed_le_of_decode hdecode
  rw [List.length_take] at hle
  rw [List.length_drop]
  omega

/-- A packet takes exactly its length off the front, as long as that is a size. -/
theorem rest_eq_drop (h : reader.registry.Sound) {buf rest : Bytes} {frame : Frame}
    (htake : (buf.take frame.length).length < Size.limit)
    (hnext : reader.next buf = .ok (some (frame, rest))) : rest = buf.drop frame.length := by
  obtain ⟨consumed, hresolve, hlength, -, -, hdecode, rfl⟩ := next_eq_frame hnext
  have hwell := (resolve_sound h hresolve).wellFormed
  -- the bytes of the packet announce what reading them takes, and so does the buffer
  have hannounced := Descriptor.frameLength_of_decode hwell htake hdecode
  have hsettled : Layout.Settled (buf.take frame.length) (.ok (some consumed)) := trivial
  rw [← hannounced] at hsettled
  have hsame := Descriptor.frameLength_append hwell hsettled (buf.drop frame.length)
  rw [List.take_append_drop, hlength, hannounced, Except.ok.injEq, Option.some.injEq] at hsame
  rw [hsame]

/-- A packet takes at least one byte, and exactly its length, off the front. -/
theorem next_frame (h : reader.registry.Sound) {buf rest : Bytes} {frame : Frame}
    (hlt : buf.length < Size.largest) (hnext : reader.next buf = .ok (some (frame, rest))) :
    1 ≤ frame.length ∧ frame.length ≤ buf.length ∧ rest = buf.drop frame.length := by
  have hlimit : buf.length < Size.limit := Nat.lt_of_lt_pred hlt
  obtain ⟨consumed, hresolve, hlength, -, hle, -⟩ := next_eq_frame hnext
  have hstatic := one_le_staticSize (resolve_sound h hresolve)
  have hfull := Descriptor.staticSize_le_of_frameLength hlimit hlength
  have htake : (buf.take frame.length).length < Size.limit := by
    rw [List.length_take]
    omega
  exact ⟨by omega, hle, rest_eq_drop h htake hnext⟩

/-- Where the limit of the reader is a size, no packet is longer than the buffer, and each takes
exactly its length off the front, whatever the length of the buffer. -/
theorem next_frame_of_limit (h : reader.registry.Sound) (hlimit : reader.maxFrameSize < Size.limit)
    {buf rest : Bytes} {frame : Frame} (hnext : reader.next buf = .ok (some (frame, rest))) :
    frame.length ≤ buf.length ∧ rest = buf.drop frame.length := by
  obtain ⟨consumed, -, -, hmax, hle, -⟩ := next_eq_frame hnext
  refine ⟨hle, rest_eq_drop h ?_ hnext⟩
  rw [List.length_take]
  omega

theorem length_lt_of_next (h : reader.registry.Sound) {buf rest : Bytes} {frame : Frame}
    (hlt : buf.length < Size.largest) (hnext : reader.next buf = .ok (some (frame, rest))) :
    rest.length < buf.length := by
  obtain ⟨hone, hle, rfl⟩ := next_frame h hlt hnext
  rw [List.length_drop]
  omega

/-! ## More bytes -/

/-- What more bytes behind a buffer leave of the answer about it: a packet that is there stays
there, and a fault stays a fault, the same one unless it was about a length. -/
def StaysBefore (reader : FrameReader) (buf more : Bytes) : Prop :=
  match reader.next buf with
  | .ok (some (frame, rest)) => reader.next (buf ++ more) = .ok (some (frame, rest ++ more))
  | .ok none => True
  | .error fault => ∃ later, reader.next (buf ++ more) = .error later ∧
      (¬fault.IsOversized → later = fault)

section Selected

variable {d : Descriptor} {buf more : Bytes} (hresolve : reader.resolve buf = .ok (some d))
  (hlater : reader.resolve (buf ++ more) = .ok (some d))
include hresolve hlater

/-- While the length is not known, only too long a buffer is a fault. Whatever the packet then turns
out to be, it is longer than what is there. -/
theorem staysBefore_of_unmeasured (h : d.layout.WellFormed) (hlt : buf.length < Size.largest)
    (hlength : d.frameLength buf = .ok none) : reader.StaysBefore buf more := by
  unfold StaysBefore
  rw [next_of_resolve hresolve, next_of_resolve hlater, hlength]
  dsimp only
  by_cases hlimit : reader.maxFrameSize < buf.length
  · rw [if_pos hlimit]
    have hlonger : reader.maxFrameSize < (buf ++ more).length := by
      rw [List.length_append]
      omega
    suffices hfault : ∃ later, reader.next (buf ++ more) = .error later by
      obtain ⟨later, hnext⟩ := hfault
      rw [next_of_resolve hlater] at hnext
      exact ⟨later, hnext, fun hother => absurd ⟨buf.length, rfl⟩ hother⟩
    rw [next_of_resolve hlater]
    cases hmore : d.frameLength (buf ++ more) with
    | error fault => exact ⟨_, rfl⟩
    | ok found =>
      cases found with
      | none =>
        dsimp only
        rw [if_pos hlonger]
        exact ⟨_, rfl⟩
      | some length =>
        have hbeyond := Descriptor.frameLength_none_append h hlt hlength hmore
        dsimp only
        rw [if_pos (show reader.maxFrameSize < length by omega)]
        exact ⟨_, rfl⟩
  · rw [if_neg hlimit]
    trivial

/-- Once the length is known, no byte beyond it is looked at. -/
theorem staysBefore_of_measured {length : Nat} (hlength : d.frameLength buf = .ok (some length))
    (hsame : d.frameLength (buf ++ more) = .ok (some length)) : reader.StaysBefore buf more := by
  unfold StaysBefore
  rw [next_of_resolve hresolve, next_of_resolve hlater, hlength, hsame]
  dsimp only
  by_cases hlimit : reader.maxFrameSize < length
  · rw [if_pos hlimit, if_pos hlimit]
    exact ⟨_, rfl, fun _ => rfl⟩
  · rw [if_neg hlimit, if_neg hlimit]
    by_cases hshort : buf.length < length
    · rw [if_pos hshort]
      trivial
    · have hlong : ¬(buf ++ more).length < length := by
        rw [List.length_append]
        omega
      have htake : (buf ++ more).take length = buf.take length :=
        List.take_append_of_le_length (Nat.not_lt.mp hshort)
      rw [if_neg hshort, if_neg hlong, htake]
      cases hdecode : d.decode (buf.take length) 0 with
      | error fault => exact ⟨_, rfl, fun _ => rfl⟩
      | ok pair =>
        obtain ⟨record, consumed⟩ := pair
        have hconsumed := Descriptor.consumed_le_of_decode hdecode
        rw [List.length_take] at hconsumed
        dsimp only
        rw [List.drop_append_of_le_length (by omega)]

end Selected

/-- A packet that is there stays there, and a fault stays a fault. -/
theorem next_append (h : reader.registry.Sound) {buf : Bytes} (hlt : buf.length < Size.largest)
    (more : Bytes) : reader.StaysBefore buf more := by
  cases hresolve : reader.resolve buf with
  | error fault =>
    have hlater := resolve_append (by rw [hresolve]; simp) more
    rw [hresolve] at hlater
    unfold StaysBefore
    rw [next_of_unknown hresolve, next_of_unknown hlater]
    exact ⟨fault, rfl, fun _ => rfl⟩
  | ok selected =>
    cases selected with
    | none =>
      unfold StaysBefore
      rw [next_of_unresolved hresolve]
      trivial
    | some d =>
      have hlater := resolve_append (by rw [hresolve]; simp) more
      rw [hresolve] at hlater
      have hwell := (resolve_sound h hresolve).wellFormed
      have hstable : Layout.Settled buf (d.frameLength buf) →
          d.frameLength (buf ++ more) = d.frameLength buf :=
        fun hsettled => Descriptor.frameLength_append hwell hsettled more
      cases hlength : d.frameLength buf with
      | error fault =>
        rw [hlength] at hstable
        unfold StaysBefore
        rw [next_of_resolve hresolve, next_of_resolve hlater, hstable hlt, hlength]
        exact ⟨_, rfl, fun _ => rfl⟩
      | ok found =>
        cases found with
        | none => exact staysBefore_of_unmeasured hresolve hlater hwell hlt hlength
        | some length =>
          rw [hlength] at hstable
          exact staysBefore_of_measured hresolve hlater hlength (hstable trivial)

/-! ## Encoded packets -/

/-- A packet as a stream may carry it: encoded under the descriptor that its first bytes select, and
no longer than the limit. -/
structure Carries (reader : FrameReader) (d : Descriptor) (bytes : Bytes) : Prop where
  resolved : reader.resolve bytes = .ok (some d)
  encoded : ∃ record, d.encode record = .ok bytes
  fits : bytes.length ≤ reader.maxFrameSize

section Carried

variable {d : Descriptor} {bytes : Bytes} (h : reader.registry.Sound)
  (hcarries : reader.Carries d bytes)
include h hcarries

theorem Carries.decode : ∃ record, d.decode bytes 0 = .ok (record, bytes.length) := by
  obtain ⟨record, hencode⟩ := hcarries.encoded
  obtain ⟨normal, -, hdecode⟩ :=
    Descriptor.decode_of_encode (resolve_sound h hcarries.resolved) hencode
  exact ⟨normal, hdecode⟩

theorem Carries.length_lt : bytes.length < Size.limit := by
  obtain ⟨record, hencode⟩ := hcarries.encoded
  exact ((Descriptor.encode_eq_ok_iff (resolve_sound h hcarries.resolved)).mp hencode).2

theorem Carries.frameLength : d.frameLength bytes = .ok (some bytes.length) := by
  obtain ⟨record, hdecode⟩ := hcarries.decode h
  exact Descriptor.frameLength_of_decode (resolve_sound h hcarries.resolved).wellFormed
    (hcarries.length_lt h) hdecode

omit h in
theorem Carries.ne_nil : bytes ≠ [] := by
  rintro rfl
  cases hcarries.resolved

/-- An encoded packet is taken off whatever stands behind it. -/
theorem next_encoded : ∃ frame, frame.IsOf (d, bytes) ∧
    ∀ rest, reader.next (bytes ++ rest) = .ok (some (frame, rest)) := by
  obtain ⟨record, hdecode⟩ := hcarries.decode h
  refine ⟨⟨d, record, bytes.length⟩, ⟨rfl, rfl, hdecode⟩, ?_⟩
  intro rest
  have hresolve := resolve_append (by rw [hcarries.resolved]; simp) rest
  rw [hcarries.resolved] at hresolve
  have hlength := Descriptor.frameLength_append (resolve_sound h hcarries.resolved).wellFormed
    (show Layout.Settled bytes (d.frameLength bytes) by
      rw [hcarries.frameLength h]
      exact trivial) rest
  rw [hcarries.frameLength h] at hlength
  have hshort : ¬(bytes ++ rest).length < bytes.length := by
    rw [List.length_append]
    omega
  rw [next_of_resolve hresolve, hlength]
  dsimp only
  rw [if_neg (Nat.not_lt.mpr hcarries.fits), if_neg hshort, List.take_left, hdecode]
  dsimp only
  rw [List.drop_left]

/-- An encoded packet is waited for until it is whole. -/
theorem next_partial {front behind : Bytes} (hsplit : front ++ behind = bytes)
    (hbehind : behind ≠ []) : reader.next front = .ok none := by
  have hpart : front.length < bytes.length := by
    have := List.length_pos_iff.mpr hbehind
    rw [← hsplit, List.length_append]
    omega
  have hlt := hcarries.length_lt h
  have hfits := hcarries.fits
  cases hresolve : reader.resolve front with
  | error fault =>
    have hwhole := resolve_append (by rw [hresolve]; simp) behind
    rw [hsplit, hresolve, hcarries.resolved] at hwhole
    cases hwhole
  | ok selected =>
    cases selected with
    | none => exact next_of_unresolved hresolve
    | some found =>
      have hwhole := resolve_append (by rw [hresolve]; simp) behind
      rw [hsplit, hresolve, hcarries.resolved] at hwhole
      cases hwhole
      have hstable : Layout.Settled front (d.frameLength front) →
          d.frameLength bytes = d.frameLength front := by
        intro hsettled
        rw [← hsplit]
        exact Descriptor.frameLength_append (resolve_sound h hresolve).wellFormed hsettled behind
      rw [hcarries.frameLength h] at hstable
      rw [next_of_resolve hresolve]
      cases hlength : d.frameLength front with
      | error fault =>
        rw [hlength] at hstable
        have hshort : front.length < Size.largest := by
          unfold Size.largest
          omega
        cases hstable hshort
      | ok announced =>
        cases announced with
        | none =>
          dsimp only
          rw [if_neg (by omega)]
        | some length =>
          rw [hlength] at hstable
          cases hstable trivial
          dsimp only
          rw [if_neg (by omega), if_pos hpart]

end Carried

end FrameReader

end PacketWire
