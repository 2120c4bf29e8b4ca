import Mathlib.Data.List.Forall2
import PacketWire.Proofs.Stream.FrameReader

/-!
# A stream in chunks

A stream arrives in chunks, and how it is cut is chance. As long as the answers about a buffer stay
when more bytes stand behind it, taking the packets off chunk by chunk is taking them off the whole
stream at once.

* `FrameReader.feed_read`: a stream in chunks is read as the whole stream is.
* `FrameReader.feed_packets`: encoded packets come out of a stream one by one, however it is cut.
* `FrameReader.feed_chunks`: any two ways of cutting any bytes give the same packets.
-/

namespace PacketWire.FrameReader

variable {reader : FrameReader}

/-! ## Readings -/

/-- A reading of what stands behind some packets, with these packets in front. -/
def Reading.after (frames : List Frame) (reading : Reading) : Reading :=
  { reading with frames := frames ++ reading.frames }

theorem Reading.after_after (first second : List Frame) (reading : Reading) :
    (reading.after second).after first = reading.after (first ++ second) := by
  simp [after]

theorem read_of_none {buf : Bytes} (h : reader.next buf = .ok none) :
    reader.read buf = ⟨[], none, buf⟩ := by
  rw [read, readWith, h]

theorem read_of_error {buf : Bytes} {fault : ProtocolError} (h : reader.next buf = .error fault) :
    reader.read buf = ⟨[], some fault, buf⟩ := by
  rw [read, readWith, h]

theorem read_of_frame {buf rest : Bytes} {frame : Frame}
    (h : reader.next buf = .ok (some (frame, rest))) (hshorter : rest.length < buf.length) :
    reader.read buf = (reader.read rest).after [frame] := by
  rw [read, readWith, h]
  dsimp only
  rw [if_pos hshorter]
  rfl

theorem feed_cons (buf chunk : Bytes) (chunks : List Bytes) :
    reader.feed buf (chunk :: chunks) =
      match (reader.read (buf ++ chunk)).fault with
      | some fault => ⟨(reader.read (buf ++ chunk)).frames, some fault,
          (reader.read (buf ++ chunk)).left ++ chunks.flatten⟩
      | none => (reader.feed (reader.read (buf ++ chunk)).left chunks).after
          (reader.read (buf ++ chunk)).frames := by
  rw [feed]
  rfl

/-! ## Steady streams -/

/-- What is known of a stream, so that the answers about a buffer stay when more of the stream
stands behind it. -/
structure Steady (reader : FrameReader) (stream : Bytes → Prop) : Prop where
  frame {buf more rest : Bytes} {frame : Frame} : stream (buf ++ more) →
    reader.next buf = .ok (some (frame, rest)) →
      rest.length < buf.length ∧ stream (rest ++ more) ∧
        reader.next (buf ++ more) = .ok (some (frame, rest ++ more))
  error {buf more : Bytes} {fault : ProtocolError} : stream (buf ++ more) →
    reader.next buf = .error fault →
      ∃ later, reader.next (buf ++ more) = .error later ∧ (¬fault.IsOversized → later = fault)

/-- What a reading of the front of a stream tells about the whole of it, when `more` follows. -/
def Reading.Continues (reader : FrameReader) (stream : Bytes → Prop) (reading whole : Reading)
    (more : Bytes) : Prop :=
  match reading.fault with
  | none => reader.next reading.left = .ok none ∧ stream (reading.left ++ more) ∧
      whole = (reader.read (reading.left ++ more)).after reading.frames
  | some fault => ∃ later, whole = ⟨reading.frames, some later, reading.left ++ more⟩ ∧
      (¬fault.IsOversized → later = fault)

theorem Reading.Continues.after {stream : Bytes → Prop} {reading whole : Reading} {more : Bytes}
    (h : reading.Continues reader stream whole more) (frames : List Frame) :
    (reading.after frames).Continues reader stream (whole.after frames) more := by
  unfold Continues at h ⊢
  show match reading.fault with | none => _ | some fault => _
  cases hfault : reading.fault with
  | none =>
    rw [hfault] at h
    obtain ⟨hwait, hstream, rfl⟩ := h
    exact ⟨hwait, hstream, after_after _ _ _⟩
  | some fault =>
    rw [hfault] at h
    obtain ⟨later, rfl, hsame⟩ := h
    exact ⟨later, rfl, hsame⟩

/-- Reading more of a stream is reading on where its front left off. -/
theorem Steady.read_append {stream : Bytes → Prop} (h : reader.Steady stream) {buf more : Bytes}
    (hstream : stream (buf ++ more)) :
    (reader.read buf).Continues reader stream (reader.read (buf ++ more)) more := by
  induction hn : buf.length using Nat.strongRecOn generalizing buf with
  | ind n ih =>
    subst hn
    cases hnext : reader.next buf with
    | error fault =>
      obtain ⟨later, hlater, hsame⟩ := h.error hstream hnext
      rw [read_of_error hnext, read_of_error hlater]
      exact ⟨later, rfl, hsame⟩
    | ok found =>
      cases found with
      | none =>
        rw [read_of_none hnext]
        exact ⟨hnext, hstream, rfl⟩
      | some pair =>
        obtain ⟨frame, rest⟩ := pair
        obtain ⟨hshorter, hrest, hwhole⟩ := h.frame hstream hnext
        have hlonger : (rest ++ more).length < (buf ++ more).length := by
          rw [List.length_append, List.length_append]
          omega
        rw [read_of_frame hnext hshorter, read_of_frame hwhole hlonger]
        exact (ih rest.length hshorter hrest rfl).after [frame]

/-- A reading of a stream in chunks is as good as one of the whole stream: only a fault about a
length may be found earlier, and be another one. -/
structure Reading.Agrees (reading whole : Reading) : Prop where
  frames : reading.frames = whole.frames
  left : reading.left = whole.left
  fault : match reading.fault with
    | none => whole.fault = none
    | some fault => ∃ later, whole.fault = some later ∧ (¬fault.IsOversized → later = fault)

theorem Reading.Agrees.after {reading whole : Reading} (h : reading.Agrees whole)
    (frames : List Frame) : (reading.after frames).Agrees (whole.after frames) where
  frames := congrArg (frames ++ ·) h.frames
  left := h.left
  fault := h.fault

/-- A stream in chunks is read as the whole stream is. -/
theorem feed_read {stream : Bytes → Prop} (h : reader.Steady stream) {buf : Bytes}
    {chunks : List Bytes} (hstream : stream (buf ++ chunks.flatten))
    (hwait : reader.next buf = .ok none) :
    (reader.feed buf chunks).Agrees (reader.read (buf ++ chunks.flatten)) := by
  induction chunks generalizing buf with
  | nil =>
    rw [List.flatten_nil, List.append_nil, read_of_none hwait]
    exact ⟨rfl, rfl, rfl⟩
  | cons chunk chunks ih =>
    rw [List.flatten_cons, ← List.append_assoc] at hstream ⊢
    have happend := h.read_append hstream
    rw [feed_cons]
    unfold Reading.Continues at happend
    cases hfault : (reader.read (buf ++ chunk)).fault with
    | none =>
      rw [hfault] at happend
      obtain ⟨hleft, hmore, hwhole⟩ := happend
      rw [hwhole]
      exact (ih hmore hleft).after _
    | some fault =>
      rw [hfault] at happend
      obtain ⟨later, hwhole, hsame⟩ := happend
      rw [hwhole]
      exact ⟨rfl, rfl, later, rfl, hsame⟩

/-! ## Encoded packets -/

/-- Bytes at the front of which there is neither a packet nor a fault, however few of them there
are. -/
def Waits (reader : FrameReader) (tail : Bytes) : Prop :=
  ∀ front behind, front ++ behind = tail → reader.next front = .ok none

/-- A stream of encoded packets one after another, and a rest that waits. -/
structure Streams (reader : FrameReader) (packets : List (Descriptor × Bytes)) (tail stream : Bytes) :
    Prop where
  carried : ∀ packet ∈ packets, reader.Carries packet.1 packet.2
  waits : reader.Waits tail
  eq_append : stream = (packets.map (·.2)).flatten ++ tail

theorem waits_nil : reader.Waits [] := by
  intro front behind h
  obtain ⟨rfl, -⟩ := List.append_eq_nil_iff.mp h
  exact next_of_unresolved rfl

theorem Carries.waits {d : Descriptor} {front behind : Bytes} (h : reader.registry.Sound)
    (hcarries : reader.Carries d (front ++ behind)) (hbehind : behind ≠ []) :
    reader.Waits front := by
  rintro first second rfl
  refine next_partial h hcarries (List.append_assoc first second behind).symm ?_
  exact List.append_ne_nil_of_right_ne_nil second hbehind

/-- At the front of such a stream nothing is taken off, or the first packet is there. -/
theorem Streams.front {packets : List (Descriptor × Bytes)} {tail buf more : Bytes}
    (h : reader.registry.Sound) (hstream : reader.Streams packets tail (buf ++ more)) :
    reader.next buf = .ok none ∨ ∃ (packet : Descriptor × Bytes) (later : List (Descriptor × Bytes))
      (rest : Bytes), reader.Carries packet.1 packet.2 ∧ buf = packet.2 ++ rest ∧
        reader.Streams later tail (rest ++ more) := by
  obtain ⟨hcarried, hwaits, heq⟩ := hstream
  cases packets with
  | nil => exact .inl (hwaits buf more heq)
  | cons packet packets =>
    have hfirst := hcarried packet (by simp)
    have hlater : ∀ packet ∈ packets, reader.Carries packet.1 packet.2 :=
      fun packet hpacket => hcarried packet (by simp [hpacket])
    rw [List.map_cons, List.flatten_cons, List.append_assoc, List.append_eq_append_iff] at heq
    rcases heq with ⟨behind, hsplit, hmore⟩ | ⟨rest, hsplit, hmore⟩
    · by_cases hbehind : behind = []
      · subst hbehind
        rw [List.append_nil] at hsplit
        exact .inr ⟨packet, packets, [], hfirst, by rw [hsplit, List.append_nil],
          hlater, hwaits, hmore⟩
      · exact .inl (next_partial h hfirst hsplit.symm hbehind)
    · exact .inr ⟨packet, packets, rest, hfirst, hsplit, hlater, hwaits, hmore.symm⟩

/-- A stream of encoded packets is steady. -/
theorem steady_of_packets (h : reader.registry.Sound) :
    reader.Steady fun stream => ∃ packets tail, reader.Streams packets tail stream where
  frame := by
    rintro buf more rest frame ⟨packets, tail, hstream⟩ hnext
    rcases hstream.front h with hnone | ⟨packet, later, behind, hfirst, rfl, hlater⟩
    · rw [hnone] at hnext
      cases hnext
    · obtain ⟨first, -, htaken⟩ := next_encoded h hfirst
      rw [htaken] at hnext
      cases hnext
      refine ⟨?_, ⟨later, tail, hlater⟩, by rw [List.append_assoc, htaken]⟩
      have := List.length_pos_iff.mpr hfirst.ne_nil
      rw [List.length_append]
      omega
  error := by
    rintro buf more fault ⟨packets, tail, hstream⟩ hnext
    rcases hstream.front h with hnone | ⟨packet, later, behind, hfirst, rfl, -⟩
    · rw [hnone] at hnext
      cases hnext
    · obtain ⟨first, -, htaken⟩ := next_encoded h hfirst
      rw [htaken] at hnext
      cases hnext

/-- Encoded packets are read one after another. -/
theorem read_packets (h : reader.registry.Sound) {packets : List (Descriptor × Bytes)}
    (hcarried : ∀ packet ∈ packets, reader.Carries packet.1 packet.2) :
    ∃ frames, List.Forall₂ Frame.IsOf frames packets ∧ ∀ tail, reader.Waits tail →
      reader.read ((packets.map (·.2)).flatten ++ tail) = ⟨frames, none, tail⟩ := by
  induction packets with
  | nil =>
    refine ⟨[], .nil, ?_⟩
    intro tail hwaits
    exact read_of_none (hwaits tail [] (List.append_nil tail))
  | cons packet packets ih =>
    obtain ⟨frames, hframes, hread⟩ := ih fun packet hpacket => hcarried packet (by simp [hpacket])
    have hfirst := hcarried packet (by simp)
    obtain ⟨frame, hframe, htaken⟩ := next_encoded h hfirst
    refine ⟨frame :: frames, .cons hframe hframes, ?_⟩
    intro tail hwaits
    have hshorter : ((packets.map (·.2)).flatten ++ tail).length <
        (packet.2 ++ ((packets.map (·.2)).flatten ++ tail)).length := by
      have := List.length_pos_iff.mpr hfirst.ne_nil
      simp only [List.length_append]
      omega
    rw [List.map_cons, List.flatten_cons, List.append_assoc, read_of_frame (htaken _) hshorter,
      hread tail hwaits]
    rfl

theorem Reading.Agrees.eq_of_waits {reading : Reading} {frames : List Frame} {left : Bytes}
    (h : reading.Agrees ⟨frames, none, left⟩) : reading = ⟨frames, none, left⟩ := by
  obtain ⟨found, fault, rest⟩ := reading
  obtain ⟨rfl, rfl, hfault⟩ := h
  cases fault with
  | none => rfl
  | some fault =>
    obtain ⟨later, hlater, -⟩ := hfault
    cases hlater

/-- Encoded packets come out of a stream one by one, in order, however it is cut into chunks, and
nothing is left of them. Where the stream ends within one more packet, the same packets come out,
and the end is found to be a fault. -/
theorem feed_packets {table : TypeTable} {schemas : List PacketSchema}
    (hbuild : Registry.build table schemas = .ok reader.registry)
    {packets : List (Descriptor × Bytes)}
    (hcarried : ∀ packet ∈ packets, reader.Carries packet.1 packet.2) :
    ∃ frames, List.Forall₂ Frame.IsOf frames packets ∧
      (∀ chunks : List Bytes, chunks.flatten = (packets.map (·.2)).flatten →
        reader.feed [] chunks = ⟨frames, none, []⟩) ∧
      reader.nextAtEnd [] = .ok none ∧
      ∀ d front behind, reader.Carries d (front ++ behind) → front ≠ [] → behind ≠ [] →
        (∀ chunks : List Bytes, chunks.flatten = (packets.map (·.2)).flatten ++ front →
          reader.feed [] chunks = ⟨frames, none, front⟩) ∧
        reader.nextAtEnd front = .error .truncated := by
  have hsound := Registry.build_sound hbuild
  obtain ⟨frames, hframes, hread⟩ := read_packets hsound hcarried
  have hfeed : ∀ tail, reader.Waits tail → ∀ chunks : List Bytes,
      chunks.flatten = (packets.map (·.2)).flatten ++ tail →
      reader.feed [] chunks = ⟨frames, none, tail⟩ := by
    intro tail hwaits chunks hchunks
    have hagrees : (reader.feed [] chunks).Agrees (reader.read chunks.flatten) :=
      feed_read (steady_of_packets hsound) ⟨packets, tail, hcarried, hwaits, hchunks⟩
        (next_of_unresolved rfl)
    rw [hchunks, hread tail hwaits] at hagrees
    exact hagrees.eq_of_waits
  refine ⟨frames, hframes, ?_, rfl, ?_⟩
  · intro chunks hchunks
    exact hfeed [] waits_nil chunks (by rw [hchunks, List.append_nil])
  · intro d front behind hcarries hfront hbehind
    have hwaits := hcarries.waits hsound hbehind
    refine ⟨hfeed front hwaits, ?_⟩
    have hnext := hwaits front [] (List.append_nil front)
    have hempty : front.isEmpty = false := by simpa using hfront
    rw [nextAtEnd, hnext]
    simp only [bind, Except.bind, hempty]
    rfl

/-- A stream of packets with a bit of everything. -/
theorem carries_inventory : ∃ (reader : FrameReader) (d : Descriptor),
    Registry.build Inventory.types [Inventory.schema] = .ok reader.registry ∧
      reader.Carries d Inventory.packet := by
  have hrun : (Registry.build Inventory.types [Inventory.schema]).toOption.bind (fun registry =>
      ((FrameReader.mk registry .incoming 64).resolve Inventory.packet).toOption.bind (fun found =>
        found.bind fun d => (d.encode Inventory.record).toOption)) = some Inventory.packet := by
    decide +kernel
  obtain ⟨registry, hbuild, hrest⟩ := Option.bind_eq_some_iff.mp hrun
  obtain ⟨found, hresolve, hfound⟩ := Option.bind_eq_some_iff.mp hrest
  obtain ⟨d, rfl, hencode⟩ := Option.bind_eq_some_iff.mp hfound
  exact ⟨⟨registry, .incoming, 64⟩, d, toOption_eq_some_iff.mp hbuild,
    toOption_eq_some_iff.mp hresolve, ⟨_, toOption_eq_some_iff.mp hencode⟩,
    show 25 ≤ 64 by decide⟩

/-- Cut within the header, and ending within the next packet. -/
theorem feed_inventory : ∃ (reader : FrameReader) (frame : Frame),
    Registry.build Inventory.types [Inventory.schema] = .ok reader.registry ∧ frame.length = 25 ∧
      reader.feed [] [[0x21], Inventory.packet.drop 1 ++ [0x21, 0x07]] =
        ⟨[frame], none, [0x21, 0x07]⟩ ∧
      reader.nextAtEnd [0x21, 0x07] = .error .truncated := by
  obtain ⟨reader, d, hbuild, hcarries⟩ := carries_inventory
  have hcarried : ∀ packet ∈ [(d, Inventory.packet)], reader.Carries packet.1 packet.2 := by
    simpa using hcarries
  obtain ⟨frames, hframes, -, -, htail⟩ := feed_packets hbuild hcarried
  obtain ⟨hfeed, hend⟩ := htail d [0x21, 0x07] (Inventory.packet.drop 2) hcarries (by simp)
    (by decide)
  obtain ⟨frame, later, ⟨-, hlength, -⟩, hlater, rfl⟩ := List.forall₂_cons_right_iff.mp hframes
  cases List.forall₂_nil_right_iff.mp hlater
  exact ⟨reader, frame, hbuild, hlength, hfeed _ (by simp [Inventory.packet]), hend⟩

/-! ## Any bytes -/

/-- Whatever bytes a program can hold are a steady stream. -/
theorem steady_of_sound (h : reader.registry.Sound) :
    reader.Steady fun stream => stream.length < Size.largest where
  frame := by
    intro buf more rest frame hlt hnext
    rw [List.length_append] at hlt
    have hshort : buf.length < Size.largest := by omega
    have hshorter := length_lt_of_next h hshort hnext
    have happend := next_append h hshort more
    rw [StaysBefore, hnext] at happend
    refine ⟨hshorter, ?_, happend⟩
    rw [List.length_append]
    omega
  error := by
    intro buf more fault hlt hnext
    rw [List.length_append] at hlt
    have happend := next_append h (show buf.length < Size.largest by omega) more
    rw [StaysBefore, hnext] at happend
    exact happend

/-- The packets that are read and what is left over are the bytes there were. -/
theorem read_taken (h : reader.registry.Sound) {buf : Bytes} (hlt : buf.length < Size.largest) :
    ∃ taken, taken.length = ((reader.read buf).frames.map (·.length)).sum ∧
      taken ++ (reader.read buf).left = buf := by
  induction hn : buf.length using Nat.strongRecOn generalizing buf with
  | ind n ih =>
    subst hn
    cases hnext : reader.next buf with
    | error fault =>
      rw [read_of_error hnext]
      exact ⟨[], rfl, rfl⟩
    | ok found =>
      cases found with
      | none =>
        rw [read_of_none hnext]
        exact ⟨[], rfl, rfl⟩
      | some pair =>
        obtain ⟨frame, rest⟩ := pair
        obtain ⟨-, hle, hrest⟩ := next_frame h hlt hnext
        have hshorter := length_lt_of_next h hlt hnext
        obtain ⟨taken, hlength, htaken⟩ := ih rest.length hshorter (by omega) rfl
        rw [read_of_frame hnext hshorter]
        refine ⟨buf.take frame.length ++ taken, ?_, ?_⟩
        · rw [List.length_append, List.length_take, hlength, Nat.min_eq_left hle]
          rfl
        · show _ ++ taken ++ (reader.read rest).left = buf
          rw [List.append_assoc, htaken, hrest, List.take_append_drop]

/-- Two readings of the same bytes that differ at most in a fault about a length. -/
structure Reading.Alike (first second : Reading) : Prop where
  frames : first.frames = second.frames
  left : first.left = second.left
  waits : first.fault = none ↔ second.fault = none
  fault {a b : ProtocolError} : first.fault = some a → second.fault = some b →
    a = b ∨ a.IsOversized ∨ b.IsOversized

theorem Reading.Agrees.waits {reading whole : Reading} (h : reading.Agrees whole) :
    reading.fault = none ↔ whole.fault = none := by
  have hfault := h.fault
  cases hreading : reading.fault with
  | none =>
    rw [hreading] at hfault
    exact iff_of_true rfl hfault
  | some fault =>
    rw [hreading] at hfault
    obtain ⟨later, hwhole, -⟩ := hfault
    rw [hwhole]
    simp

theorem Reading.Agrees.same {reading whole : Reading} (h : reading.Agrees whole)
    {fault : ProtocolError} (hreading : reading.fault = some fault) (hother : ¬fault.IsOversized) :
    whole.fault = some fault := by
  have hfault := h.fault
  rw [hreading] at hfault
  obtain ⟨later, hwhole, hsame⟩ := hfault
  rw [hwhole, hsame hother]

theorem Reading.Agrees.alike {first second whole : Reading} (h : first.Agrees whole)
    (h' : second.Agrees whole) : first.Alike second where
  frames := h.frames.trans h'.frames.symm
  left := h.left.trans h'.left.symm
  waits := h.waits.trans h'.waits.symm
  fault := by
    intro a b ha hb
    by_cases hasize : a.IsOversized
    · exact .inr (.inl hasize)
    · by_cases hbsize : b.IsOversized
      · exact .inr (.inr hbsize)
      · have hwhole := h.same ha hasize
        rw [h'.same hb hbsize] at hwhole
        exact .inl (Option.some.inj hwhole).symm

/-- Any two ways of cutting bytes into chunks, as many bytes as a size can count, give the same
packets and leave the same bytes, which are all but those of the packets; both end in a fault or
both wait, and the faults are the same unless one is about a length. A packet takes at least one
byte, and exactly its length, off the front, and without a packet nothing is taken. -/
theorem feed_chunks (hmade : reader.registry.Made) {input : Bytes}
    (hlt : input.length < Size.largest) :
    (∀ chunks chunks' : List Bytes, chunks.flatten = input → chunks'.flatten = input →
      (reader.feed [] chunks).Alike (reader.feed [] chunks') ∧
      ∃ taken, taken.length = ((reader.feed [] chunks).frames.map (·.length)).sum ∧
        taken ++ (reader.feed [] chunks).left = input) ∧
    match reader.next input with
    | .ok (some (frame, rest)) =>
      1 ≤ frame.length ∧ frame.length ≤ input.length ∧ rest = input.drop frame.length ∧
        reader.read input = (reader.read rest).after [frame]
    | .ok none => reader.read input = ⟨[], none, input⟩
    | .error fault => reader.read input = ⟨[], some fault, input⟩ := by
  have hsound := hmade.sound
  constructor
  · have hagrees : ∀ chunks : List Bytes, chunks.flatten = input →
        (reader.feed [] chunks).Agrees (reader.read input) := by
      rintro chunks rfl
      exact feed_read (steady_of_sound hsound) hlt (next_of_unresolved rfl)
    intro chunks chunks' hchunks hchunks'
    have hcut := hagrees chunks hchunks
    refine ⟨hcut.alike (hagrees chunks' hchunks'), ?_⟩
    rw [hcut.frames, hcut.left]
    exact read_taken hsound hlt
  · split
    · next frame rest hnext =>
      obtain ⟨hone, hle, hrest⟩ := next_frame hsound hlt hnext
      exact ⟨hone, hle, hrest, read_of_frame hnext (length_lt_of_next hsound hlt hnext)⟩
    · next hnext => exact read_of_none hnext
    · next hnext => exact read_of_error hnext

/-- A packet and a byte that starts none, byte by byte and at once. -/
theorem feed_inventory_alike : ∃ reader : FrameReader,
    Registry.build Inventory.types [Inventory.schema] = .ok reader.registry ∧
      (reader.feed [] ((Inventory.packet ++ [0xff]).map ([·]))).Alike
        (reader.feed [] [Inventory.packet ++ [0xff]]) := by
  obtain ⟨reader, -, hbuild, -⟩ := carries_inventory
  have hmade : reader.registry.Made := .inr ⟨_, _, hbuild⟩
  obtain ⟨hcuts, -⟩ := feed_chunks hmade
    (show (Inventory.packet ++ [0xff]).length < Size.largest by decide)
  exact ⟨reader, hbuild, (hcuts _ _ (by decide) (by decide)).1⟩

end PacketWire.FrameReader
