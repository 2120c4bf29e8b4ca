import PacketWire.Connection

/-!
# What the work on a connection does

Dealing with a packet looks at the session, the number of packets dispatched and the number of clock
readings, and changes nothing else but the counters: these three are the *desk* that packets are
dealt with at. Writing the queue then empties it, and changes nothing else of the desk.

* `Desk.serve`: a packet dealt with at a desk, which is a *turn*.
* `Work.run_handle_serve`: dealing with a packet on any connection is serving it at its desk.
* `deliver`: packets handed to a stream whose writes may fail, which is a *delivery*;
  `Delivery.Sound`: what is written of them, and which of them the stream has taken.
* `Work.run_flush`: writing the queue is delivering it.
* `Work.run_takeFrame_of_frame`: taking a packet off the buffer is serving it and writing the queue.
* `Desk.serve_unexpected`, `serve_dispatch`, `serve_malformed`, `serve_reply`: what a turn can be.
-/

namespace PacketWire

/-- What handing packets to the stream makes of the counters. -/
def Metrics.packetsHanded (metrics : Metrics) (packets : List Bytes) : Metrics :=
  packets.foldl (fun metrics packet => metrics.packetSent (.ofNat packet.length)) metrics

/-- What a fault of the reader makes of the counters. -/
def Metrics.readFailed (metrics : Metrics) : ProtocolError → Metrics
  | .unknownHeader _ | .unknownSubHeader _ _ => metrics.unknownHeader
  | _ => metrics

namespace Connection

/-- What dealing with a packet depends on and changes. -/
structure Desk where
  session : Session
  /-- The packets dispatched so far. -/
  dispatched : Nat
  /-- The readings taken from the clock so far. -/
  readings : Nat

/-- A packet, and what dealing with it did. -/
structure Turn where
  frame : Frame
  before : Desk
  after : Desk
  /-- Why the work stopped before its end, if it did. -/
  stop : Option Halt

def desk (c : Connection) : Desk := ⟨c.session, c.turn, c.readings⟩

/-- A connection of which only the desk matters. -/
def Desk.connection (desk : Desk) (services : Services) : Connection :=
  { services, session := desk.session, turn := desk.dispatched, readings := desk.readings }

/-- Deals with a packet at a desk. -/
def Desk.serve (services : Services) (clock : Clock) (desk : Desk) (frame : Frame) : Turn :=
  match (Work.handle frame clock).run (desk.connection services) with
  | .ok () c => ⟨frame, desk, c.desk, none⟩
  | .error stop c => ⟨frame, desk, c.desk, some stop⟩

theorem Desk.serve_frame {services : Services} {clock : Clock} (desk : Desk) (frame : Frame) :
    (desk.serve services clock frame).frame = frame ∧
      (desk.serve services clock frame).before = desk := by
  unfold serve
  split <;> exact ⟨rfl, rfl⟩

namespace Turn

/-- How the turn ends the connection, if it does. -/
def outcome? (t : Turn) : Option Outcome :=
  match t.stop with
  | some (.fault fault) => some (.failed fault)
  | some .abort => some .aborted
  | none => if t.after.session.isClosing then some .finished else none

/-- The packets that are written after the turn: those in the queue, unless the work stopped. -/
def replies (t : Turn) : List Bytes :=
  match t.stop with
  | some _ => []
  | none => t.after.session.outbox

/-- The desk that is left when the queue has been written. -/
def left (t : Turn) : Desk :=
  match t.stop with
  | some _ => t.after
  | none => { t.after with session := t.after.session.drain.2 }

end Turn

/-- The connection at another desk. -/
def atDesk (c : Connection) (desk : Desk) (metrics : Metrics) : Connection :=
  { c with
    session := desk.session
    turn := desk.dispatched
    readings := desk.readings
    metrics }

/-! ## Deliveries -/

/-- What becomes of packets that are handed to a stream. -/
structure Delivery where
  /-- The packets that the stream takes. -/
  taken : List Bytes
  /-- The bytes that it writes. -/
  written : Bytes
  /-- Where its writes fail from then on. -/
  writeFault : Option WriteFault
  /-- The error of a write that failed. -/
  error : Option StreamError

namespace Delivery

/-- A write of bytes that are held back. -/
def write : Option WriteFault → Bytes → Delivery
  | none, bytes => ⟨[], bytes, none, none⟩
  | some ⟨error, 0, part⟩, bytes => ⟨[], bytes.take part, some ⟨error, 0, part⟩, some error⟩
  | some ⟨error, after + 1, part⟩, bytes => ⟨[], bytes, some ⟨error, after, part⟩, none⟩

/-- A delivery behind some bytes that are written and a packet that is taken. -/
def behind (d : Delivery) (written packet : Bytes) : Delivery :=
  { d with taken := packet :: d.taken, written := written ++ d.written }

/-- Packets are taken behind the bytes that are held back. These are written when they are many,
and at the end. -/
def handOver : Option WriteFault → Bytes → List Bytes → Delivery
  | writeFault, held, [] => write writeFault held
  | writeFault, held, packet :: rest =>
    if Work.highWater ≤ held.length then
      let first := write writeFault held
      match first.error with
      | some _ => first
      | none => (handOver first.writeFault packet rest).behind first.written packet
    else (handOver writeFault (held ++ packet) rest).behind [] packet

/-- What a delivery of packets behind some bytes can be: all of them are written, or those at the
front of what the stream has taken. -/
structure Sound (d : Delivery) (writeFault : Option WriteFault) (held : Bytes)
    (packets : List Bytes) : Prop where
  taken : d.taken <+: packets
  written : d.written <+: held ++ d.taken.flatten
  complete : d.error = none → d.taken = packets ∧ d.written = held ++ packets.flatten
  failed {error : StreamError} : d.error = some error →
    ∃ fault, d.writeFault = some fault ∧ fault.error = error
  faultless : writeFault = none → d.writeFault = none ∧ d.error = none

section

variable {d : Delivery} {writeFault later : Option WriteFault} {held : Bytes}
  {packets : List Bytes}

theorem write_sound (writeFault : Option WriteFault) (held : Bytes) :
    (write writeFault held).Sound writeFault held [] := by
  unfold write
  split
  · exact ⟨List.prefix_rfl, by simp, fun _ => ⟨rfl, by simp⟩, fun h => (by cases h),
      fun _ => ⟨rfl, rfl⟩⟩
  · refine ⟨List.prefix_rfl, ?_, fun h => (by cases h), fun h => ?_, fun h => (by cases h)⟩
    · exact (List.take_prefix _ _).trans (List.prefix_append _ _)
    · cases h
      exact ⟨_, rfl, rfl⟩
  · exact ⟨List.prefix_rfl, by simp, fun _ => ⟨rfl, by simp⟩, fun h => (by cases h),
      fun h => (by cases h)⟩

theorem Sound.taken_nil (h : d.Sound writeFault held []) : d.taken = [] :=
  List.prefix_nil.mp h.taken

/-- After a write that failed no packet is taken. -/
theorem Sound.of_error {error : StreamError} (h : d.Sound writeFault held [])
    (herror : d.error = some error) (packets : List Bytes) : d.Sound writeFault held packets where
  taken := by
    rw [h.taken_nil]
    exact List.nil_prefix
  written := h.written
  complete := by
    intro hnone
    rw [herror] at hnone
    cases hnone
  failed := h.failed
  faultless := h.faultless

theorem Sound.behind {written packet following : Bytes} (h : d.Sound later following packets)
    (hlater : writeFault = none → later = none) (hbytes : written ++ following = held ++ packet) :
    (d.behind written packet).Sound writeFault held (packet :: packets) where
  taken := List.prefix_cons_inj packet |>.mpr h.taken
  written := by
    rw [Delivery.behind, List.flatten_cons, ← List.append_assoc, ← hbytes, List.append_assoc]
    exact (List.prefix_append_right_inj written).mpr h.written
  complete := by
    intro hnone
    obtain ⟨htaken, hwritten⟩ := h.complete hnone
    rw [Delivery.behind, List.flatten_cons, ← List.append_assoc, ← hbytes, List.append_assoc]
    exact ⟨congrArg _ htaken, congrArg _ hwritten⟩
  failed := h.failed
  faultless := fun hnone => h.faultless (hlater hnone)

theorem handOver_sound (writeFault : Option WriteFault) (held : Bytes) (packets : List Bytes) :
    (handOver writeFault held packets).Sound writeFault held packets := by
  induction packets generalizing writeFault held with
  | nil => exact write_sound writeFault held
  | cons packet packets ih =>
    have hfirst := write_sound writeFault held
    rw [handOver]
    split
    · dsimp only
      split
      · next herror => exact hfirst.of_error herror _
      · next herror =>
        refine (ih _ packet).behind (fun hnone => (hfirst.faultless hnone).1) ?_
        rw [(hfirst.complete herror).2, List.flatten_nil, List.append_nil]
    · exact (ih writeFault (held ++ packet)).behind id rfl

end

end Delivery

/-- The delivery of a queue. Nothing is written for an empty one. -/
def deliver (writeFault : Option WriteFault) (packets : List Bytes) : Delivery :=
  if packets.isEmpty then ⟨[], [], writeFault, none⟩ else .handOver writeFault [] packets

theorem deliver_nil (writeFault : Option WriteFault) :
    deliver writeFault [] = ⟨[], [], writeFault, none⟩ := rfl

/-- One packet is one write. -/
theorem deliver_singleton (writeFault : Option WriteFault) (packet : Bytes) :
    deliver writeFault [packet] = (Delivery.write writeFault packet).behind [] packet := rfl

theorem deliver_sound (writeFault : Option WriteFault) (packets : List Bytes) :
    (deliver writeFault packets).Sound writeFault [] packets := by
  unfold deliver
  split
  · next hempty =>
    rw [List.isEmpty_iff.mp hempty]
    exact ⟨List.prefix_rfl, List.prefix_rfl, fun _ => ⟨rfl, rfl⟩, fun h => (by cases h),
      fun hnone => ⟨hnone, rfl⟩⟩
  · exact Delivery.handOver_sound writeFault [] packets

/-- The connection when its stream has dealt with some packets. -/
def delivered (c : Connection) (d : Delivery) : Connection :=
  { c with
    written := c.written ++ d.written
    writeFault := d.writeFault
    metrics := c.metrics.packetsHanded d.taken }

theorem delivered_nil (c : Connection) : c.delivered (deliver c.writeFault []) = c := by
  rw [deliver_nil, delivered, List.append_nil]
  rfl

/-- The connection with some bytes taken off, at the desk that a turn leaves, and with the replies
delivered. -/
def served (c : Connection) (t : Turn) (rest : Bytes) (metrics : Metrics) : Connection :=
  (({ c with buffer := rest }).atDesk t.left metrics).delivered (deliver c.writeFault t.replies)

/-! ## Counters -/

/-- What dealing with a packet at a desk makes of the counters. -/
def Desk.tally (services : Services) (clock : Clock) (desk : Desk) (frame : Frame)
    (metrics : Metrics) : Metrics :=
  match (Work.handle frame clock).run { desk.connection services with metrics } with
  | .ok () c | .error _ c => c.metrics

/-- What a turn makes of the counters before it is answered: a packet came in, and it was dealt
with. -/
def counted (c : Connection) (clock : Clock) (t : Turn) : Metrics :=
  c.desk.tally c.services clock t.frame (c.metrics.packetReceived (.ofNat t.frame.length))

namespace Work

/-! ## Steps -/

section

variable {α β : Type} (c : Connection)

theorem run_bind (x : Work α) (f : α → Work β) :
    (x >>= f).run c =
      match x.run c with
      | .ok a next => (f a).run next
      | .error stop next => .error stop next := by
  show EStateM.bind x f c = _
  unfold EStateM.bind EStateM.run
  cases x c <;> rfl

theorem run_pure (a : α) : (pure a : Work α).run c = .ok a c := rfl

theorem run_get : (get : Work Connection).run c = .ok c c := rfl

theorem run_modify (f : Connection → Connection) :
    (modify f : Work Unit).run c = .ok () (f c) := rfl

theorem run_count (change : Metrics → Metrics) :
    (count change).run c = .ok () { c with metrics := change c.metrics } := rfl

theorem run_onSession (change : Session → Except ProtocolError α × Session) :
    (onSession change).run c =
      match change c.session with
      | (.ok a, session) => .ok a { c with session }
      | (.error fault, session) => .error (.fault fault) { c with session } := by
  unfold onSession
  rw [run_bind, run_get]
  dsimp only
  rcases change c.session with ⟨result, session⟩
  cases result <;> rfl

theorem run_readClock (clock : Clock) :
    (readClock clock).run c =
      match clock c.readings with
      | some now => .ok now { c with readings := c.readings + 1 }
      | none => .error .abort { c with readings := c.readings + 1 } := by
  unfold readClock
  rw [run_bind, run_get]
  dsimp only
  rw [run_bind, run_modify]
  cases clock c.readings <;> rfl

end

variable (c : Connection) (clock : Clock) (frame : Frame)

/-! ## Dealing with a packet -/

theorem run_dispatch :
    (dispatch frame).run c =
      match c.services.dispatcher.dispatch c.turn ⟨frame.record, frame.descriptor, c.session⟩ with
      | (.ok (), ctx) => .ok () { c with session := ctx.session, turn := c.turn + 1 }
      | (.error fault, ctx) => .error (.fault fault)
          { c with
            session := ctx.session
            turn := c.turn + 1
            metrics := c.metrics.handlerFailure } := by
  unfold dispatch
  rw [run_bind, run_get]
  dsimp only
  rcases c.services.dispatcher.dispatch c.turn ⟨frame.record, frame.descriptor, c.session⟩ with
    ⟨result, ctx⟩
  cases result <;> rfl

theorem run_answer (reply : Handshake) :
    (answer reply clock).run c =
      match clock c.readings with
      | none => .error .abort { c with readings := c.readings + 1 }
      | some now =>
        match c.session.verifyHandshake reply now c.services.handshake with
        | (.error fault, session) => .error (.fault fault)
            { c with
              session
              readings := c.readings + 1
              metrics := c.metrics.handshakeFailed }
        | (.ok .complete, session) =>
          (onSession (·.setPhase c.services.mode.phaseAfterHandshake)).run
            { c with
              session
              readings := c.readings + 1
              metrics := c.metrics.handshakeSuccess }
        | (.ok (.retry next), session) =>
          (onSession (·.send next)).run { c with session, readings := c.readings + 1 } := by
  unfold answer
  rw [run_bind, run_readClock]
  cases clock c.readings with
  | none => rfl
  | some now =>
    dsimp only
    rw [run_bind, run_get]
    dsimp only
    rcases c.session.verifyHandshake reply now c.services.handshake with ⟨result, session⟩
    cases result with
    | error fault => rfl
    | ok outcome => cases outcome <;> rfl

theorem run_handle :
    (handle frame clock).run c =
      if c.session.phase = .handshake then
        if frame.descriptor.key = Handshake.key then
          match Handshake.ofRecord frame.record with
          | .error fault => .error (.fault (.codec fault)) c
          | .ok reply => (answer reply clock).run c
        else .error (.fault (.unexpectedPacket frame.descriptor.name c.session.phase)) c
      else if frame.descriptor.key = Handshake.key then
        .error (.fault (.unexpectedPacket frame.descriptor.name c.session.phase)) c
      else (dispatch frame).run c := by
  unfold handle
  rw [run_bind, run_get]
  simp only [beq_iff_eq]
  by_cases hphase : c.session.phase = .handshake
  · simp only [if_pos hphase]
    by_cases hkey : frame.descriptor.key = Handshake.key
    · simp only [if_pos hkey]
      cases Handshake.ofRecord frame.record <;> rfl
    · simp only [if_neg hkey]
      rfl
  · simp only [if_neg hphase]
    by_cases hkey : frame.descriptor.key = Handshake.key
    · simp only [if_pos hkey]
      rfl
    · simp only [if_neg hkey]

/-- Dealing with a packet on any connection is serving it at its desk. -/
theorem run_handle_serve :
    (handle frame clock).run c =
      match (c.desk.serve c.services clock frame).stop with
      | none => .ok () (c.atDesk (c.desk.serve c.services clock frame).after
          (c.desk.tally c.services clock frame c.metrics))
      | some stop => .error stop (c.atDesk (c.desk.serve c.services clock frame).after
          (c.desk.tally c.services clock frame c.metrics)) := by
  unfold Desk.serve Desk.tally
  rw [run_handle, run_handle, run_handle]
  simp only [Desk.connection, desk]
  split
  · split
    · cases Handshake.ofRecord frame.record with
      | error fault => rfl
      | ok reply =>
        dsimp only
        rw [run_answer, run_answer, run_answer]
        dsimp only
        cases clock c.readings with
        | none => rfl
        | some now =>
          dsimp only
          rcases c.session.verifyHandshake reply now c.services.handshake with ⟨result, session⟩
          cases result with
          | error fault => rfl
          | ok outcome =>
            cases outcome with
            | complete =>
              simp only [run_onSession]
              rcases session.setPhase c.services.mode.phaseAfterHandshake with ⟨result, session⟩
              cases result <;> rfl
            | retry next =>
              simp only [run_onSession]
              rcases session.send next with ⟨result, session⟩
              cases result <;> rfl
    · rfl
  · split
    · rfl
    · rw [run_dispatch, run_dispatch, run_dispatch]
      dsimp only
      rcases c.services.dispatcher.dispatch c.turn ⟨frame.record, frame.descriptor, c.session⟩ with
        ⟨result, ctx⟩
      cases result <;> rfl

/-! ## Writing -/

/-- What writing packets comes to. -/
def deliveredAs (d : Delivery) : EStateM.Result Halt Connection Unit :=
  match d.error with
  | none => .ok () (c.delivered d)
  | some error => .error (.fault (peerGone error)) (c.delivered d)

theorem run_writeOut (bytes : Bytes) :
    (writeOut bytes).run c = deliveredAs c (.write c.writeFault bytes) := by
  obtain ⟨services, session, metrics, buffer, written, turn, readings, elapsed, writeFault,
    outcome⟩ := c
  rcases writeFault with _ | ⟨error, _ | after, part⟩ <;> rfl

theorem deliveredAs_behind {first : Delivery} (h : first.taken = []) (d : Delivery)
    (packet : Bytes) :
    deliveredAs { c.delivered first with
        metrics := (c.delivered first).metrics.packetSent (.ofNat packet.length) } d =
      deliveredAs c (d.behind first.written packet) := by
  have hafter : ({ c.delivered first with
        metrics := (c.delivered first).metrics.packetSent (.ofNat packet.length) }
          : Connection).delivered d = c.delivered (d.behind first.written packet) := by
    simp only [delivered, Delivery.behind, h, List.append_assoc]
    rfl
  rw [deliveredAs, deliveredAs, hafter]
  rfl

/-- Handing packets over is delivering them. -/
theorem run_handOver (held : Bytes) (packets : List Bytes) :
    (handOver held packets).run c = deliveredAs c (.handOver c.writeFault held packets) := by
  induction packets generalizing held c with
  | nil => exact run_writeOut c held
  | cons packet packets ih =>
    rw [handOver, Delivery.handOver]
    by_cases hfull : highWater ≤ held.length
    · rw [if_pos hfull, if_pos hfull, run_bind, run_bind, run_writeOut, deliveredAs]
      dsimp only
      cases herror : (Delivery.write c.writeFault held).error with
      | some error =>
        dsimp only
        rw [deliveredAs, herror]
      | none =>
        dsimp only
        rw [run_pure]
        dsimp only
        rw [run_bind, run_count]
        dsimp only
        rw [ih, deliveredAs_behind c (Delivery.write_sound _ _).taken_nil]
        rfl
    · rw [if_neg hfull, if_neg hfull, run_bind, run_pure]
      dsimp only
      rw [run_bind, run_count]
      dsimp only
      rw [ih]
      rfl

/-- The queue is emptied, and its packets are delivered. -/
theorem run_flush :
    flush.run c =
      deliveredAs { c with session := c.session.drain.2 }
        (deliver c.writeFault c.session.outbox) := by
  have heq : flush.run c =
      (if c.session.outbox.isEmpty then pure () else handOver [] c.session.outbox : Work Unit).run
        { c with session := c.session.drain.2 } := rfl
  rw [heq]
  by_cases hempty : c.session.outbox = []
  · rw [if_pos (List.isEmpty_iff.mpr hempty), run_pure, hempty]
    exact congrArg _ (delivered_nil { c with session := c.session.drain.2 }).symm
  · have hqueue := mt List.isEmpty_iff.mp hempty
    rw [if_neg hqueue, deliver, if_neg hqueue]
    exact run_handOver _ _ _

/-! ## Taking a packet off -/

section

variable {c clock frame}

theorem run_takeFrame_of_error {fault : ProtocolError}
    (h : c.services.reader.next c.buffer = .error fault) :
    (takeFrame clock).run c =
      .error (.fault fault) { c with metrics := c.metrics.readFailed fault } := by
  unfold takeFrame
  rw [run_bind, run_get]
  dsimp only
  rw [h]
  cases fault <;> rfl

theorem run_takeFrame_of_none (h : c.services.reader.next c.buffer = .ok none) :
    (takeFrame clock).run c = .ok false c := by
  unfold takeFrame
  rw [run_bind, run_get]
  dsimp only
  rw [h]
  rfl

variable {rest : Bytes} (h : c.services.reader.next c.buffer = .ok (some (frame, rest)))
  {t : Turn} (hserve : c.desk.serve c.services clock frame = t)
include h hserve

/-- A packet that is complete is served at the desk. -/
theorem run_takeFrame_of_frame :
    let tallied := c.desk.tally c.services clock frame
      (c.metrics.packetReceived (.ofNat frame.length))
    (takeFrame clock).run c =
      match t.stop with
      | some stop => .error stop (({ c with buffer := rest }).atDesk t.after tallied)
      | none => (do flush; return true : Work Bool).run
          (({ c with buffer := rest }).atDesk t.after tallied) := by
  unfold takeFrame
  rw [run_bind, run_get]
  dsimp only
  rw [h]
  dsimp only
  rw [run_bind, run_modify]
  dsimp only
  rw [run_bind, run_count]
  dsimp only
  have hsame : ({ c with
      buffer := rest
      metrics := c.metrics.packetReceived (.ofNat frame.length) } : Connection).desk.serve
        c.services clock frame = t := hserve
  rw [run_bind, run_handle_serve, hsame]
  cases t.stop <;> rfl

theorem run_takeFrame_of_stop {stop : Halt} (hstop : t.stop = some stop) :
    (takeFrame clock).run c = .error stop (c.served t rest (c.counted clock t)) := by
  have hframe : t.frame = frame := hserve ▸ (c.desk.serve_frame frame).1
  have hreplies : t.replies = [] := by rw [Turn.replies, hstop]
  have hleft : t.left = t.after := by rw [Turn.left, hstop]
  rw [run_takeFrame_of_frame h hserve, hstop, served, hreplies, hleft, counted, hframe]
  exact congrArg _ (delivered_nil _).symm

/-- The replies of a turn that is not stopped are delivered. -/
theorem run_takeFrame_of_goesOn (hstop : t.stop = none) :
    (takeFrame clock).run c =
      match (deliver c.writeFault t.replies).error with
      | none => .ok true (c.served t rest (c.counted clock t))
      | some error => .error (.fault (peerGone error)) (c.served t rest (c.counted clock t)) := by
  have hframe : t.frame = frame := hserve ▸ (c.desk.serve_frame frame).1
  have hreplies : t.replies = t.after.session.outbox := by rw [Turn.replies, hstop]
  have hleft : t.left = { t.after with session := t.after.session.drain.2 } := by
    rw [Turn.left, hstop]
  rw [run_takeFrame_of_frame h hserve, hstop, served, hreplies, hleft, counted, hframe]
  dsimp only
  rw [run_bind, run_flush, deliveredAs]
  dsimp only [atDesk]
  cases (deliver c.writeFault t.after.session.outbox).error <;> rfl

end

end Work

/-! ## Turns -/

/-- A turn that some work on the session makes, of which the result is known. -/
def Turn.of (frame : Frame) (before : Desk) (result : Except ProtocolError Unit × Session)
    (dispatched readings : Nat) : Turn where
  frame := frame
  before := before
  after := ⟨result.2, dispatched, readings⟩
  stop := match result.1 with
    | .ok () => none
    | .error fault => some (.fault fault)

namespace Desk

variable {services : Services} {clock : Clock} {desk : Desk} {frame : Frame}

/-- The wrong packet for the phase is refused, and nothing else happens. -/
theorem serve_unexpected
    (h : ¬(desk.session.phase = .handshake ↔ frame.descriptor.key = Handshake.key)) :
    desk.serve services clock frame =
      ⟨frame, desk, desk,
        some (.fault (.unexpectedPacket frame.descriptor.name desk.session.phase))⟩ := by
  unfold serve
  rw [Work.run_handle]
  by_cases hphase : (desk.connection services).session.phase = .handshake
  · have hkey : ¬frame.descriptor.key = Handshake.key := fun hkey => h (iff_of_true hphase hkey)
    rw [if_pos hphase, if_neg hkey]
    rfl
  · have hkey : frame.descriptor.key = Handshake.key :=
      Decidable.byContradiction fun hkey => h (iff_of_false hphase hkey)
    rw [if_neg hphase, if_pos hkey]
    rfl

/-- A packet that is no handshake is dispatched once the handshake is settled. -/
theorem serve_dispatch (hphase : desk.session.phase ≠ .handshake)
    (hkey : frame.descriptor.key ≠ Handshake.key) :
    desk.serve services clock frame =
      let dispatched := services.dispatcher.dispatch desk.dispatched
        ⟨frame.record, frame.descriptor, desk.session⟩
      .of frame desk (dispatched.1, dispatched.2.session) (desk.dispatched + 1) desk.readings := by
  have hphase : (desk.connection services).session.phase ≠ .handshake := hphase
  unfold serve
  rw [Work.run_handle, if_neg hphase, if_neg hkey, Work.run_dispatch]
  simp only [connection]
  rcases services.dispatcher.dispatch desk.dispatched
    ⟨frame.record, frame.descriptor, desk.session⟩ with ⟨result, ctx⟩
  cases result <;> rfl

section

variable (hphase : desk.session.phase = .handshake) (hkey : frame.descriptor.key = Handshake.key)
include hphase hkey

theorem serve_malformed {fault : CodecError} (h : Handshake.ofRecord frame.record = .error fault) :
    desk.serve services clock frame =
      .of frame desk (.error (.codec fault), desk.session) desk.dispatched desk.readings := by
  have hphase : (desk.connection services).session.phase = .handshake := hphase
  unfold serve
  rw [Work.run_handle, if_pos hphase, if_pos hkey, h]
  rfl

/-- A reply is judged by the clock and the open handshake. -/
theorem serve_reply {reply : Handshake} (h : Handshake.ofRecord frame.record = .ok reply) :
    desk.serve services clock frame =
      match clock desk.readings with
      | none =>
        ⟨frame, desk, ⟨desk.session, desk.dispatched, desk.readings + 1⟩, some .abort⟩
      | some now =>
        match desk.session.verifyHandshake reply now services.handshake with
        | (.error fault, session) =>
          .of frame desk (.error fault, session) desk.dispatched (desk.readings + 1)
        | (.ok .complete, session) =>
          .of frame desk (session.setPhase services.mode.phaseAfterHandshake) desk.dispatched
            (desk.readings + 1)
        | (.ok (.retry question), session) =>
          .of frame desk (session.send question) desk.dispatched (desk.readings + 1) := by
  have hphase : (desk.connection services).session.phase = .handshake := hphase
  unfold serve
  rw [Work.run_handle, if_pos hphase, if_pos hkey, h]
  dsimp only
  rw [Work.run_answer]
  simp only [connection]
  cases clock desk.readings with
  | none => rfl
  | some now =>
    dsimp only
    rcases desk.session.verifyHandshake reply now services.handshake with ⟨result, session⟩
    cases result with
    | error fault => rfl
    | ok outcome =>
      cases outcome with
      | complete =>
        simp only [Work.run_onSession]
        rcases session.setPhase services.mode.phaseAfterHandshake with ⟨result, session⟩
        cases result <;> rfl
      | retry question =>
        simp only [Work.run_onSession]
        rcases session.send question with ⟨result, session⟩
        cases result <;> rfl

end

end Desk

end Connection

end PacketWire
