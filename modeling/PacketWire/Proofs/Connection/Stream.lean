import PacketWire.Proofs.Connection.Run
import PacketWire.Proofs.Dispatch.Handlers

/-!
# A whole stream

To a connection comes a stream, in chunks, and then the end of it. Its packets are dealt with one
after another, until one fails or closes the session; what they queue is written behind the opening
packet, in order; and the result is that of the last packet dealt with, or else that of the reading.

* `run_chunks`: so it is for every connection that waits, by induction on the chunks.
* `run_stream`: and so for every connection that is opened.
-/

namespace PacketWire

/-- What a reading that comes to the end of a stream makes of the connection. -/
def FrameReader.Reading.outcome (reading : Reading) : Outcome :=
  match reading.fault with
  | some fault => .failed fault
  | none => if reading.left.isEmpty then .finished else .failed .truncated

theorem FrameReader.Reading.outcome_eq_finished_iff {reading : Reading} :
    reading.outcome = .finished ↔ reading.fault = none ∧ reading.left = [] := by
  unfold outcome
  cases reading.fault with
  | some fault => simp
  | none => simp

namespace Connection

/-- A stream that comes in chunks and ends. -/
def stream (chunks : List Bytes) : List Event := chunks.map .bytes ++ [.streamEnd]

/-- A connection that waits for bytes, and whose writes succeed. -/
structure Waits (c : Connection) : Prop where
  outcome : c.outcome = none
  isClosing : c.session.isClosing = false
  writeFault : c.writeFault = none

variable {services : Services} {clock : Clock}

section

variable {c : Connection}

theorem Waits.hasEnded (h : c.Waits) : c.hasEnded = false := by
  rw [Connection.hasEnded, h.outcome]
  rfl

theorem Waits.endStream (h : c.Waits) :
    c.endStream.written = c.written ∧
      c.endStream.outcome = some (FrameReader.Reading.outcome ⟨[], none, c.buffer⟩) := by
  rw [Connection.endStream, h.hasEnded, if_neg Bool.false_ne_true, FrameReader.Reading.outcome]
  dsimp only
  split <;> exact ⟨rfl, rfl⟩

/-- What a chunk does to a connection that waits: its packets are read and dealt with, and the
connection ends by the last of them, or by the fault that stopped the reading, or waits again. -/
theorem Waits.receive (h : c.Waits) (clock : Clock) (hsound : c.services.registry.Sound)
    (chunk : Bytes) :
    let reading := c.services.reader.read (c.buffer ++ chunk)
    let turns := c.desk.serveAll c.services clock reading.frames
    let next := (Event.bytes chunk).apply clock c
    (Event.bytes chunk).turns clock c = turns ∧ next.services = c.services ∧
      next.desk = c.desk.leave turns ∧
      next.written = c.written ++ (turns.flatMap Turn.replies).flatten ∧
      (∀ outcome, outcomeOf turns = some outcome → next.outcome = some outcome) ∧
      (outcomeOf turns = none → match reading.fault with
        | some fault => next.outcome = some (.failed fault)
        | none => next.Waits ∧ next.buffer = reading.left) := by
  have happly : (Event.bytes chunk).apply clock c =
      ({ c with buffer := c.buffer ++ chunk } : Connection).pump clock := by
    rw [Event.apply, Connection.receive, h.hasEnded, if_neg Bool.false_ne_true]
  have hturns : (Event.bytes chunk).turns clock c =
      Connection.turns clock { c with buffer := c.buffer ++ chunk } := by
    rw [Event.turns, h.hasEnded, if_neg Bool.false_ne_true]
  have hpumps := pumps clock (c := { c with buffer := c.buffer ++ chunk }) hsound
  obtain ⟨hreads, hwritten, hends⟩ := hpumps.reads h.isClosing h.writeFault h.outcome
  dsimp only
  rw [← hturns, ← happly] at hpumps hwritten hends
  rw [← hturns] at hreads
  generalize (Event.bytes chunk).turns clock c = turns at *
  generalize (Event.bytes chunk).apply clock c = next at *
  rw [← show turns = c.desk.serveAll c.services clock _ from hreads]
  refine ⟨rfl, hpumps.services_eq, hpumps.desk_eq, hwritten, fun outcome houtcome => ?_,
    fun hnone => ?_⟩
  · refine (hpumps.outcome_eq houtcome).resolve_right ?_
    rintro ⟨-, fault, hfault, -⟩
    have hnone := hpumps.writeFault_eq_none h.writeFault
    exact absurd (hnone.symm.trans hfault) (by simp)
  · have hend := hends hnone
    dsimp only at hend
    cases hfault : (c.services.reader.read (c.buffer ++ chunk)).fault with
    | some fault =>
      rw [hfault] at hend
      exact hend
    | none =>
      rw [hfault] at hend
      exact ⟨⟨hend.1, hpumps.isClosing_eq_false hend.1, hpumps.writeFault_eq_none h.writeFault⟩,
        hend.2⟩

/-- A connection that waits deals with the packets of a stream one after another. -/
theorem run_chunks (clock : Clock) (hsound : c.services.registry.Sound) (h : c.Waits)
    (chunks : List Bytes) :
    let reading := c.services.reader.feed c.buffer chunks
    let turns := c.desk.serveAll c.services clock reading.frames
    runTurns clock c (stream chunks) = turns ∧
      (run clock c (stream chunks)).written = c.written ++ (turns.flatMap Turn.replies).flatten ∧
      (run clock c (stream chunks)).outcome =
        some ((outcomeOf turns).getD reading.outcome) := by
  induction chunks generalizing c with
  | nil =>
    obtain ⟨hwritten, houtcome⟩ := h.endStream
    exact ⟨rfl, hwritten.trans (List.append_nil _).symm, houtcome⟩
  | cons chunk chunks ih =>
    obtain ⟨hturns, hservices, hdesk, hwritten, hlast, hend⟩ := h.receive clock hsound chunk
    have hrun : run clock c (stream (chunk :: chunks)) =
        run clock ((Event.bytes chunk).apply clock c) (stream chunks) := rfl
    have hmore : runTurns clock c (stream (chunk :: chunks)) = (Event.bytes chunk).turns clock c ++
        runTurns clock ((Event.bytes chunk).apply clock c) (stream chunks) := rfl
    rw [hrun, hmore, FrameReader.feed_cons]
    generalize (Event.bytes chunk).apply clock c = next at *
    generalize (Event.bytes chunk).turns clock c = first at *
    generalize c.services.reader.read (c.buffer ++ chunk) = reading at *
    subst hturns
    cases houtcome : outcomeOf (c.desk.serveAll c.services clock reading.frames) with
    | some outcome =>
      -- packets that come later are not dealt with
      have hended := hlast outcome houtcome
      obtain ⟨hstays, hnone⟩ := run_of_ended clock (hasEnded_of_outcome hended) (stream chunks)
      rw [hstays, hnone, List.append_nil]
      cases reading.fault with
      | some fault =>
        dsimp only
        rw [houtcome]
        exact ⟨rfl, hwritten, hended⟩
      | none =>
        dsimp only [FrameReader.Reading.after]
        rw [Desk.serveAll_of_outcome houtcome, houtcome]
        exact ⟨rfl, hwritten, hended⟩
    | none =>
      have hend := hend houtcome
      cases hfault : reading.fault with
      | some fault =>
        rw [hfault] at hend
        obtain ⟨hstays, hnone⟩ := run_of_ended clock (hasEnded_of_outcome hend) (stream chunks)
        rw [hstays, hnone, List.append_nil]
        dsimp only
        rw [houtcome]
        exact ⟨rfl, hwritten, hend⟩
      | none =>
        rw [hfault] at hend
        obtain ⟨hwaits, hleft⟩ := hend
        obtain ⟨hrest, hwrites, hresult⟩ := ih (hservices ▸ hsound) hwaits
        rw [hservices, hleft, hdesk] at hrest hwrites hresult
        dsimp only [FrameReader.Reading.after]
        rw [Desk.serveAll_append houtcome, outcomeOf_append houtcome, List.flatMap_append,
          List.flatten_append, ← List.append_assoc, ← hwritten]
        exact ⟨congrArg _ hrest, hwrites, hresult⟩

end

/-! ## What is written, and how it ends -/

/-- What becomes of a connection at a desk, with the packet `opening` written, to which a stream
comes that is read as `reading`: the turns in which it is dealt with, and the connection at its
end. -/
structure Streamed (services : Services) (clock : Clock) (opening : Bytes) (desk : Desk)
    (reading : FrameReader.Reading) (turns : List Turn) (last : Connection) : Prop where
  /-- Each packet is dealt with at the desk that the packet before it left. -/
  turns_eq : turns = desk.serveAll services clock reading.frames
  /-- Packets are dealt with in the order they are read, each once. -/
  frames : turns.map (·.frame) <+: reading.frames
  /-- Only the last one may fail or close the session. -/
  goesOn : ∀ t ∈ turns.dropLast, t.stop = none ∧ t.after.session.isClosing = false
  /-- Packets are left out only behind one that failed or closed the session. -/
  leavesOut : turns.map (·.frame) ≠ reading.frames →
    ∃ t, turns.getLast? = some t ∧ (t.stop ≠ none ∨ t.after.session.isClosing = true)
  /-- No packet waits to be written when the turn of another comes. -/
  queue : ∀ t ∈ turns, t.before.session.outbox = []
  /-- What waits when a packet has been dealt with is what its handler queued, if that leaves the
  queue alone. -/
  queued : ∀ t ∈ turns, t.stop = none → t.before.session.phase ≠ .handshake →
    t.frame.descriptor.key ≠ Handshake.key →
    ∀ handler, services.dispatcher.handler? t.frame.descriptor.key = some handler →
      (handler t.before.dispatched).Spares .queue →
      t.replies = (handler t.before.dispatched).queued
        ⟨t.frame.record, t.frame.descriptor, t.before.session⟩
  /-- What waits when a packet has been dealt with is written, in order, but for one that failed. -/
  written : last.written = opening ++ (turns.flatMap Turn.replies).flatten
  /-- A handler works on the packet and the session. Where it fails or panics, this is how the
  connection ends, with the name of the packet. -/
  handled : ∀ t ∈ turns, t.before.session.phase ≠ .handshake →
    t.frame.descriptor.key ≠ Handshake.key →
    ∀ handler, services.dispatcher.handler? t.frame.descriptor.key = some handler →
      match (handler t.before.dispatched).run
          ⟨t.frame.record, t.frame.descriptor, t.before.session⟩ with
      | (.done (), ctx) => t.stop = none ∧ t.after.session = ctx.session
      | (.failed fault, _) => last.outcome =
          some (.failed (.handlerFailed t.frame.descriptor.name fault.message))
      | (.panicked payload, _) => last.outcome =
          some (.failed (.handlerFailed t.frame.descriptor.name payload.reason))
  /-- The connection ends by the fault of a packet. -/
  failed : ∀ t ∈ turns, ∀ fault, t.stop = some (.fault fault) → last.outcome = some (.failed fault)
  aborted : ∀ t ∈ turns, t.stop = some .abort → last.outcome = some .aborted
  /-- Where no packet ends the connection, the end of the stream does, or what stopped the
  reading. -/
  ended : (∀ t ∈ turns, t.stop = none ∧ t.after.session.isClosing = false) →
    last.outcome = some reading.outcome
  /-- It ends well when a packet has closed the session, or when the whole stream has been dealt
  with. -/
  finished_iff : last.outcome = some .finished ↔
    (∃ t ∈ turns, t.stop = none ∧ t.after.session.isClosing = true) ∨
      (∀ t ∈ turns, t.stop = none ∧ t.after.session.isClosing = false) ∧
        reading.fault = none ∧ reading.left = []

section

variable {opening : Bytes} {desk : Desk} {reading : FrameReader.Reading} {last : Connection}

/-- A packet that is dispatched to a handler ends the connection where the handler fails. -/
theorem serve_handler {t : Turn} (hserve : t.before.serve services clock t.frame = t)
    (hlast : ∀ fault, t.stop = some (.fault fault) → last.outcome = some (.failed fault))
    (hphase : t.before.session.phase ≠ .handshake)
    (hkey : t.frame.descriptor.key ≠ Handshake.key) {handler : Handler}
    (hbound : services.dispatcher.handler? t.frame.descriptor.key = some handler) :
    match (handler t.before.dispatched).run
        ⟨t.frame.record, t.frame.descriptor, t.before.session⟩ with
    | (.done (), ctx) => t.stop = none ∧ t.after.session = ctx.session
    | (.failed fault, _) => last.outcome =
        some (.failed (.handlerFailed t.frame.descriptor.name fault.message))
    | (.panicked payload, _) => last.outcome =
        some (.failed (.handlerFailed t.frame.descriptor.name payload.reason)) := by
  rw [Desk.serve_dispatch hphase hkey, Dispatcher.dispatch] at hserve
  dsimp only at hserve
  rw [hbound] at hserve
  rcases hrun : (handler t.before.dispatched).run
    ⟨t.frame.record, t.frame.descriptor, t.before.session⟩ with ⟨ending, ctx⟩
  dsimp only at hserve
  rw [hrun] at hserve
  cases ending with
  | done value => exact ⟨by rw [← hserve]; rfl, by rw [← hserve]; rfl⟩
  | failed fault => exact hlast _ (by rw [← hserve]; rfl)
  | panicked payload => exact hlast _ (by rw [← hserve]; rfl)

/-- What waits after such a packet is what its handler queued. -/
theorem replies_eq_queued {t : Turn} (hserve : t.before.serve services clock t.frame = t)
    (hqueue : t.before.session.outbox = []) (hstop : t.stop = none)
    (hphase : t.before.session.phase ≠ .handshake)
    (hkey : t.frame.descriptor.key ≠ Handshake.key) {handler : Handler}
    (hbound : services.dispatcher.handler? t.frame.descriptor.key = some handler)
    (hspares : (handler t.before.dispatched).Spares .queue) :
    t.replies = (handler t.before.dispatched).queued
      ⟨t.frame.record, t.frame.descriptor, t.before.session⟩ := by
  have hafter : t.after.session = ((handler t.before.dispatched).run
      ⟨t.frame.record, t.frame.descriptor, t.before.session⟩).2.session := by
    rw [Desk.serve_dispatch hphase hkey] at hserve
    rw [← Dispatcher.dispatch_of_handler hbound, ← congrArg (·.after.session) hserve]
    rfl
  rw [Turn.replies, hstop]
  dsimp only
  rw [hafter, Script.run_queued hspares]
  dsimp only
  rw [hqueue, List.nil_append]

section

variable (hlast : last.outcome =
  some ((outcomeOf (desk.serveAll services clock reading.frames)).getD reading.outcome))
include hlast

theorem outcome_of_mem {t : Turn} {outcome : Outcome}
    (ht : t ∈ desk.serveAll services clock reading.frames) (houtcome : t.outcome? = some outcome) :
    last.outcome = some outcome := by
  rw [hlast, Desk.outcomeOf_of_mem ht houtcome, Option.getD_some]

theorem outcome_of_forall (hgoes : ∀ t ∈ desk.serveAll services clock reading.frames,
    t.stop = none ∧ t.after.session.isClosing = false) : last.outcome = some reading.outcome := by
  rw [hlast]
  cases hend : (desk.serveAll services clock reading.frames).getLast? with
  | none => rw [outcomeOf, hend]; rfl
  | some t =>
    have hnone := Turn.outcome?_eq_none_iff.mpr (hgoes t (List.mem_of_getLast? hend))
    rw [outcomeOf, hend, Option.bind_some, hnone, Option.getD_none]

theorem outcome_eq_finished_iff : last.outcome = some .finished ↔
    (∃ t ∈ desk.serveAll services clock reading.frames,
        t.stop = none ∧ t.after.session.isClosing = true) ∨
      (∀ t ∈ desk.serveAll services clock reading.frames,
          t.stop = none ∧ t.after.session.isClosing = false) ∧
        reading.fault = none ∧ reading.left = [] := by
  constructor
  · intro hfinished
    by_cases hgoes : ∀ t ∈ desk.serveAll services clock reading.frames,
        t.stop = none ∧ t.after.session.isClosing = false
    · have hreading := (outcome_of_forall hlast hgoes).symm.trans hfinished
      exact .inr ⟨hgoes, FrameReader.Reading.outcome_eq_finished_iff.mp (Option.some.inj hreading)⟩
    · simp only [not_forall] at hgoes
      obtain ⟨t, ht, hends⟩ := hgoes
      obtain ⟨outcome, houtcome⟩ :=
        Option.ne_none_iff_exists'.mp (mt Turn.outcome?_eq_none_iff.mp hends)
      have hsame := (outcome_of_mem hlast ht houtcome).symm.trans hfinished
      exact .inl ⟨t, ht, Turn.outcome?_eq_finished_iff.mp (houtcome.trans hsame)⟩
  · rintro (⟨t, ht, hclosed⟩ | ⟨hgoes, hread⟩)
    · exact outcome_of_mem hlast ht (Turn.outcome?_eq_finished_iff.mpr hclosed)
    · rw [outcome_of_forall hlast hgoes, FrameReader.Reading.outcome_eq_finished_iff.mpr hread]

theorem streamed_of_outcome (hqueue : desk.session.outbox = [])
    (hwritten : last.written = opening ++
      ((desk.serveAll services clock reading.frames).flatMap Turn.replies).flatten) :
    Streamed services clock opening desk reading (desk.serveAll services clock reading.frames)
      last := by
  obtain ⟨hserved, hall⟩ := Desk.serveAll_frames services clock desk reading.frames
  have hfailed : ∀ t ∈ desk.serveAll services clock reading.frames, ∀ fault,
      t.stop = some (.fault fault) → last.outcome = some (.failed fault) := by
    intro t ht fault hstop
    exact outcome_of_mem hlast ht (by rw [Turn.outcome?, hstop])
  have hempty : ∀ t ∈ desk.serveAll services clock reading.frames, t.before.session.outbox = [] :=
    fun t ht => Desk.outbox_of_mem hqueue ht
  refine ⟨rfl, hserved, fun t ht => ?_, fun hne => ?_, hempty,
    fun t ht hstop hphase hkey handler hbound hspares => ?_, hwritten,
    fun t ht hphase hkey handler hbound => ?_, hfailed, fun t ht hstop => ?_,
    outcome_of_forall hlast, outcome_eq_finished_iff hlast⟩
  · exact Turn.outcome?_eq_none_iff.mp (Desk.outcome?_of_mem_dropLast ht)
  · obtain ⟨outcome, hsome⟩ := Option.ne_none_iff_exists'.mp (mt hall hne)
    obtain ⟨t, hend, houtcome⟩ := Option.bind_eq_some_iff.mp hsome
    refine ⟨t, hend, Decidable.or_iff_not_imp_left.mpr fun hstop => ?_⟩
    by_contra hopen
    have hnone := Turn.outcome?_eq_none_iff.mpr ⟨not_not.mp hstop, Bool.eq_false_iff.mpr hopen⟩
    exact absurd (hnone.symm.trans houtcome) (by simp)
  · exact replies_eq_queued (Desk.serve_of_mem ht) (hempty t ht) hstop hphase hkey hbound hspares
  · exact serve_handler (Desk.serve_of_mem ht) (hfailed t ht) hphase hkey hbound
  · exact outcome_of_mem hlast ht (by rw [Turn.outcome?, hstop])

end

theorem streamed_of_waits (clock : Clock) {opened : Connection}
    (hservices : opened.services = services) (hsound : services.registry.Sound)
    (hwaits : opened.Waits) (hwritten : opened.written = opening) (hbuffer : opened.buffer = [])
    (hqueue : opened.session.outbox = []) (chunks : List Bytes) :
    Streamed services clock opening opened.desk (services.reader.feed [] chunks)
      (runTurns clock opened (stream chunks)) (run clock opened (stream chunks)) := by
  subst hservices hwritten
  obtain ⟨hturns, hwritten, houtcome⟩ := run_chunks clock hsound hwaits chunks
  rw [hbuffer] at hturns hwritten houtcome
  rw [hturns]
  exact streamed_of_outcome houtcome hqueue hwritten

/-- A connection to which a whole stream comes deals with its packets in order, writes what waits
after each of them behind the opening packet, and ends by the first of them that ends it, or by the
end of the stream. Where the clock fails, or the registry holds no packet at all, no handshake can
be opened, and the connection ends before it has read or written anything. -/
theorem run_stream (hregistry : services.registry.Made) (clock : Clock) (id : SessionId)
    (peer : Option SocketAddress) (nonce : UInt32) (metrics : Metrics) (readings : Nat)
    (chunks : List Bytes) :
    let opened := start services id peer nonce clock metrics readings
    let turns := runTurns clock opened (stream chunks)
    let last := run clock opened (stream chunks)
    clock readings = none ∧ last.outcome = some .aborted ∧ turns = [] ∧ last.written = [] ∨
      ∃ now, clock readings = some now ∧
        (services.registry = {} ∧
            last.outcome = some (.failed (.unknownHeader Handshake.key.header)) ∧
            turns = [] ∧ last.written = [] ∨
          (∃ table schemas, Registry.build table schemas = .ok services.registry) ∧
            services.registry.encode .outgoing (⟨nonce, now, 0⟩ : Handshake) =
              .ok (Handshake.bytes ⟨nonce, now, 0⟩) ∧
            Streamed services clock (Handshake.bytes ⟨nonce, now, 0⟩) opened.desk
              (services.reader.feed [] chunks) turns last) := by
  dsimp only
  cases hclock : clock readings with
  | none =>
    obtain ⟨hended, hwritten, -⟩ := start_of_none id peer nonce metrics none hclock
    obtain ⟨hrun, hturns⟩ := run_of_ended clock (hasEnded_of_outcome hended) (stream chunks)
    rw [hrun]
    exact .inl ⟨rfl, hended, hturns, hwritten⟩
  | some now =>
    refine .inr ⟨now, rfl, ?_⟩
    rcases hregistry with hempty | ⟨table, schemas, hbuild⟩
    · obtain ⟨hended, hwritten, -⟩ := start_of_empty id peer nonce metrics none hclock hempty
      obtain ⟨hrun, hturns⟩ := run_of_ended clock (hasEnded_of_outcome hended) (stream chunks)
      rw [hrun]
      exact .inl ⟨hempty, hended, hturns, hwritten⟩
    · have hencode := (Registry.build_greets hbuild).encode ⟨nonce, now, 0⟩
      have hwrite := ((deliver_sound none [Handshake.bytes ⟨nonce, now, 0⟩]).faultless rfl).2
      have hstart := start_of_written id peer metrics none hclock hencode hwrite
      generalize start services id peer nonce clock metrics readings = opened at hstart
      have hwaits : opened.Waits := by
        rw [hstart]
        exact ⟨rfl, rfl, rfl⟩
      have hqueue : opened.session.outbox = [] := by
        rw [hstart]
        rfl
      exact .inr ⟨⟨table, schemas, hbuild⟩, hencode, streamed_of_waits clock (by rw [hstart]; rfl)
        (Registry.build_sound hbuild) hwaits (by rw [hstart]; rfl) (by rw [hstart]; rfl) hqueue
        chunks⟩

end

/-- A server that sends the first ping back and closes the session at the second. -/
def pingServices (registry : Registry) : Services where
  registry := registry
  dispatcher := ⟨[(⟨0x10, none⟩,
    fun turn => if turn = 0 then .echo ⟨0x10, none⟩ else .closeSession)]⟩

theorem pingServices_spares (registry : Registry) (part : Session.Part) :
    (pingServices registry).dispatcher.Spares part := by
  refine Dispatcher.spares_singleton fun turn => ?_
  split
  · exact fun record => Script.spares_sendRecord part ⟨0x10, none⟩ record
  · exact Script.spares_closeSession part

def pingSchema : PacketSchema where
  name := "Ping"
  header := 0x10
  direction := .both
  fields := [{ name := "x", kind := .scalar .u8 }]

/-- The registry with the ping. -/
def pingRegistry : Registry := .register .base (.ofCodecs pingSchema [.scalar .u8])

theorem build_ping : Registry.build .empty [pingSchema] = .ok pingRegistry :=
  Registry.build_singleton (Compile.descriptor_of_unplaced (by decide) (by decide) rfl)

theorem made_ping : (pingServices pingRegistry).registry.Made :=
  .inr ⟨.empty, [pingSchema], build_ping⟩

/-- A peer that comes through the handshake and sends three pings gets its phase and the first ping
back. The third is left out. -/
theorem run_stream_ping : ∃ registry : Registry, registry.Made ∧
    let services := pingServices registry
    let opened := start services ⟨1⟩ none 7 (.constant 100) {} 0
    let chunks := [Handshake.bytes ⟨7, 100, 0⟩ ++ [0x10], [1, 0x10, 2, 0x10, 3]]
    let last := run (.constant 100) opened (stream chunks)
    last.written = Handshake.bytes ⟨7, 100, 0⟩ ++ [0xFD, 2, 0x10, 1] ∧
      last.outcome = some .finished ∧ last.buffer = [0x10, 3] ∧
      Streamed services (.constant 100) (Handshake.bytes ⟨7, 100, 0⟩) opened.desk
        (services.reader.feed [] chunks) (runTurns (.constant 100) opened (stream chunks))
        last := by
  have hstream := run_stream made_ping (.constant 100) ⟨1⟩ none 7 {} 0
    [Handshake.bytes ⟨7, 100, 0⟩ ++ [0x10], [1, 0x10, 2, 0x10, 3]]
  obtain ⟨now, hclock, hcases⟩ := hstream.resolve_left fun hnothing => absurd hnothing.1 (by decide)
  obtain ⟨-, -, hstreamed⟩ := hcases.resolve_left fun hnothing =>
    absurd hnothing.2.1 (by decide +kernel)
  cases hclock
  refine ⟨pingRegistry, made_ping, ?_, ?_, ?_, hstreamed⟩
  · decide +kernel
  · decide +kernel
  · decide +kernel

/-- A server that sends each ping back and then takes it out of the queue again. -/
def forgetfulServices (registry : Registry) : Services where
  registry := registry
  dispatcher := ⟨[(⟨0x10, none⟩,
    fun _ => (Script.echo ⟨0x10, none⟩).bind fun () => .drain fun _ => .done ())]⟩

/-- Without any packet registered not even the opening packet is written; and a packet that a
handler queues is not written, if the handler takes it out of the queue again. -/
theorem stream_unwritten :
    (let opened := start { registry := {} } ⟨1⟩ none 7 (.constant 100) {} 0
      let last := run (.constant 100) opened (stream [])
      last.written = [] ∧ last.outcome = some (.failed (.unknownHeader 0xFF))) ∧
    ∃ registry, Registry.build .empty [pingSchema] = .ok registry ∧
      let services := forgetfulServices registry
      let opened := start services ⟨1⟩ none 7 (.constant 100) {} 0
      let chunks := [Handshake.bytes ⟨7, 100, 0⟩ ++ [0x10, 1]]
      let turns := runTurns (.constant 100) opened (stream chunks)
      let last := run (.constant 100) opened (stream chunks)
      last.outcome = some .finished ∧ last.written = Handshake.bytes ⟨7, 100, 0⟩ ++ [0xFD, 2] ∧
        ∃ t, turns.getLast? = some t ∧ t.stop = none ∧
          ∃ handler, services.dispatcher.handler? t.frame.descriptor.key = some handler ∧
            (handler t.before.dispatched).queued
              ⟨t.frame.record, t.frame.descriptor, t.before.session⟩ = [[0x10, 1]] := by
  refine ⟨by decide +kernel, pingRegistry, build_ping, by decide +kernel, by decide +kernel, ?_⟩
  have hlast : (runTurns (.constant 100)
      (start (forgetfulServices pingRegistry) ⟨1⟩ none 7 (.constant 100) {} 0)
      (stream [Handshake.bytes ⟨7, 100, 0⟩ ++ [0x10, 1]])).getLast?.bind (fun t =>
        ((forgetfulServices pingRegistry).dispatcher.handler? t.frame.descriptor.key).map
          fun handler => (t.stop, (handler t.before.dispatched).queued
            ⟨t.frame.record, t.frame.descriptor, t.before.session⟩)) =
      some (none, [[0x10, 1]]) := by
    decide +kernel
  obtain ⟨t, hturn, hhandler⟩ := Option.bind_eq_some_iff.mp hlast
  obtain ⟨handler, hbound, hresult⟩ := Option.map_eq_some_iff.mp hhandler
  obtain ⟨hstop, hqueued⟩ := Prod.mk.inj hresult
  exact ⟨t, hturn, hstop, handler, hbound, hqueued⟩

end Connection

end PacketWire
