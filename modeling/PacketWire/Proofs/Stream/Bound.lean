import PacketWire.Proofs.Stream.Chunks

/-!
# How much of a stream waits

A reader that wants more bytes keeps the ones it has. There are four ways to want more: the buffer
is empty, the sub-header is missing, the length is not known yet, or the packet is not whole. None
of them leaves more waiting than the limit of the reader, whatever the size fields announce.

* `FrameReader.length_le_of_waits`: a buffer that waits is no longer than the limit.
* `FrameReader.read_within`: neither does taking every packet off a buffer leave more than that.
* `FrameReader.feed_within`: feeding a stream never leaves more than the limit waiting.
-/

namespace PacketWire.FrameReader

variable {reader : FrameReader}

/-! ## One packet -/

/-- Only a first byte is waited behind for the second. -/
theorem length_le_of_unresolved {buf : Bytes} (h : reader.resolve buf = .ok none) :
    buf.length ≤ 1 := by
  cases buf with
  | nil => exact Nat.zero_le 1
  | cons header rest =>
    rw [resolve_cons] at h
    cases rest with
    | nil => exact Nat.le_refl 1
    | cons sub rest =>
      exfalso
      split at h
      · cases h
      · split at h
        · dsimp only at h
          split at h <;> cases h
        · cases h

/-- A buffer that waits is no longer than the limit: its first byte does not exceed one, while the
length is not known the buffer itself is checked, and once it is known the packet is. -/
theorem length_le_of_waits (hmax : 1 ≤ reader.maxFrameSize) {buf : Bytes}
    (h : reader.next buf = .ok none) : buf.length ≤ reader.maxFrameSize := by
  cases hresolve : reader.resolve buf with
  | error fault =>
    rw [next_of_unknown hresolve] at h
    cases h
  | ok selected =>
    cases selected with
    | none =>
      have hshort := length_le_of_unresolved hresolve
      omega
    | some d =>
      rw [next_of_resolve hresolve] at h
      split at h
      · cases h
      · split at h
        · cases h
        · next hlimit => exact Nat.not_lt.mp hlimit
      · next length hlength =>
        split at h
        · cases h
        · next hlimit =>
          split at h
          · next hshort => omega
          · split at h <;> cases h

/-! ## A whole stream -/

/-- What a limit makes of a reading: no packet is longer, and neither is what waits for more bytes.
After a fault nothing waits. -/
structure Reading.Within (reading : Reading) (limit : Nat) : Prop where
  frames : ∀ frame ∈ reading.frames, frame.length ≤ limit
  waiting : reading.fault = none → reading.left.length ≤ limit

theorem Reading.Within.after {reading : Reading} {limit : Nat} (h : reading.Within limit)
    {frames : List Frame} (hframes : ∀ frame ∈ frames, frame.length ≤ limit) :
    (reading.after frames).Within limit where
  frames := by
    intro frame hframe
    rcases List.mem_append.mp hframe with hfirst | hlater
    · exact hframes frame hfirst
    · exact h.frames frame hlater
  waiting := h.waiting

theorem read_within (h : reader.registry.Sound) (hmax : 1 ≤ reader.maxFrameSize) (buf : Bytes) :
    (reader.read buf).Within reader.maxFrameSize := by
  induction hn : buf.length using Nat.strongRecOn generalizing buf with
  | ind n ih =>
    subst hn
    cases hnext : reader.next buf with
    | error fault =>
      rw [read_of_error hnext]
      exact ⟨List.forall_mem_nil _, fun hnone => by cases hnone⟩
    | ok found =>
      cases found with
      | none =>
        rw [read_of_none hnext]
        exact ⟨List.forall_mem_nil _, fun _ => length_le_of_waits hmax hnext⟩
      | some pair =>
        obtain ⟨frame, rest⟩ := pair
        have hshorter := length_lt_of_frame h hnext
        obtain ⟨-, -, -, hlimit, -⟩ := next_eq_frame hnext
        rw [read_of_frame hnext hshorter]
        exact (ih rest.length hshorter rest rfl).after (List.forall_mem_singleton.mpr hlimit)

/-- Feeding a stream never leaves more than the limit waiting, whatever the chunks are. -/
theorem feed_within (h : reader.registry.Sound) (hmax : 1 ≤ reader.maxFrameSize) {buf : Bytes}
    (hbuf : buf.length ≤ reader.maxFrameSize) (chunks : List Bytes) :
    (reader.feed buf chunks).Within reader.maxFrameSize := by
  induction chunks generalizing buf with
  | nil => exact ⟨List.forall_mem_nil _, fun _ => hbuf⟩
  | cons chunk chunks ih =>
    have hread := read_within h hmax (buf ++ chunk)
    rw [feed_cons]
    cases hfault : (reader.read (buf ++ chunk)).fault with
    | some fault => exact ⟨hread.frames, fun hnone => by cases hnone⟩
    | none => exact (ih (hread.waiting hfault)).after hread.frames

/-- Whatever a buffer holds, it waits only while it is no longer than the limit. A packet that is
taken off is no longer than the limit either, is as long as the bytes that are taken off the front,
and has at least the bytes that every packet of its kind has; the buffer it is taken off may be as
long as a size can be. So however a peer cuts whatever it sends into chunks, no packet that comes
out is longer than the limit, and no more than the limit waits between two chunks. -/
theorem waiting_le_maxFrameSize (hmade : reader.registry.Made) (hmax : 1 ≤ reader.maxFrameSize) :
    (∀ buf, reader.next buf = .ok none → buf.length ≤ reader.maxFrameSize) ∧
    (∀ buf frame rest, reader.next buf = .ok (some (frame, rest)) →
      frame.length ≤ reader.maxFrameSize ∧
      (buf.length < Size.limit → frame.length + rest.length = buf.length ∧
        rest = buf.drop frame.length ∧ frame.descriptor.staticSize ≤ frame.length)) ∧
    ∀ chunks, (reader.feed [] chunks).Within reader.maxFrameSize := by
  have hsound := hmade.sound
  refine ⟨fun buf => length_le_of_waits hmax, ?_, feed_within hsound hmax (Nat.zero_le _)⟩
  intro buf frame rest hnext
  obtain ⟨consumed, -, hlength, hlimit, hle, -⟩ := next_eq_frame hnext
  refine ⟨hlimit, ?_⟩
  intro hlt
  have htake : (buf.take frame.length).length < Size.limit := by
    rw [List.length_take]
    omega
  have hrest := rest_eq_drop hsound htake hnext
  have hlong : frame.length + rest.length = buf.length := by
    rw [hrest, List.length_drop]
    omega
  exact ⟨hlong, hrest, Descriptor.staticSize_le_of_frameLength hlt hlength⟩

/-- A packet with three bytes behind it, of which two select the next packet. -/
theorem waiting_inventory : ∃ reader : FrameReader,
    Registry.build Inventory.types [Inventory.schema] = .ok reader.registry ∧
      (∃ frame, reader.next (Inventory.packet ++ [0x21, 0x07, 0x00]) =
          .ok (some (frame, [0x21, 0x07, 0x00])) ∧
        frame.length = 25 ∧ frame.length ≤ reader.maxFrameSize ∧
        frame.descriptor.staticSize ≤ frame.length) ∧
      (reader.feed [] [Inventory.packet ++ [0x21], [0x07, 0x00]]).Within reader.maxFrameSize := by
  obtain ⟨reader, d, hbuild, hcarries⟩ := carries_inventory
  have hmade : reader.registry.Made := .inr ⟨_, _, hbuild⟩
  have hmax : 1 ≤ reader.maxFrameSize := Nat.le_trans (by decide) hcarries.fits
  obtain ⟨-, htaken, hfeed⟩ := waiting_le_maxFrameSize hmade hmax
  obtain ⟨frame, hframe, hnext⟩ := next_encoded hmade.sound hcarries
  obtain ⟨hlimit, hrest⟩ := htaken _ _ _ (hnext [0x21, 0x07, 0x00])
  obtain ⟨-, -, hstatic⟩ := hrest (by decide)
  exact ⟨reader, hbuild, ⟨frame, hnext _, hframe.2.1, hlimit, hstatic⟩, hfeed _⟩

end PacketWire.FrameReader
