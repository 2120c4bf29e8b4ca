import PacketWire.Proofs.Connection.Turns

/-!
# Runs of a connection

A connection is opened, and then moved by events in any order: bytes arrive, the stream ends or
fails, time passes, a shutdown is asked for. The packets that are dealt with in a run are its turns.

* `start_of_encode`: a connection that is opened delivers the opening packet of its handshake, and
  waits for the reply if that could be written.
* `run_serves`: the turns of a run are one service of their packets, and move its desk; the turn
  that ends the connection is the last.
-/

namespace PacketWire.Connection

/-! ## Opening -/

/-- The desk of a connection that was opened when the clock showed `now`. -/
def Desk.opened (services : Services) (id : SessionId) (peer : Option SocketAddress)
    (nonce now : UInt32) (readings : Nat) : Desk where
  session := { id, peer, registry := services.registry, handshake := .opened nonce now }
  dispatched := 0
  readings := readings + 1

section

variable {services : Services} (id : SessionId) (peer : Option SocketAddress) {nonce now : UInt32}
  {clock : Clock} (metrics : Metrics) {readings : Nat} (writeFault : Option WriteFault)

variable (nonce) in
theorem start_of_none (hclock : clock readings = none) :
    let opened := start services id peer nonce clock metrics readings writeFault
    opened.outcome = some .aborted ∧ opened.written = [] ∧ opened.session.phase = .handshake := by
  unfold start Work.openHandshake
  dsimp only
  rw [Work.run_bind, Work.run_bind, Work.run_readClock]
  dsimp only
  rw [hclock]
  exact ⟨rfl, rfl, rfl⟩

theorem run_openHandshake (c : Connection) (hclock : clock c.readings = some now)
    (hclosed : c.session.handshake.isHandshaking = false) :
    (Work.openHandshake nonce clock).run c =
      (Work.onSession (·.send (⟨nonce, now, 0⟩ : Handshake))).run
        { c with
          session := { c.session with handshake := .opened nonce now }
          metrics := c.metrics.handshakeAttempt
          readings := c.readings + 1 } := by
  have hstart : c.session.startHandshake nonce now =
      (.ok ⟨nonce, now, 0⟩, { c.session with handshake := .opened nonce now }) := by
    rw [Session.startHandshake, Handshake.State.start, hclosed]
    rfl
  unfold Work.openHandshake
  rw [Work.run_bind, Work.run_readClock, hclock]
  dsimp only
  rw [Work.run_bind, Work.run_onSession]
  dsimp only
  rw [hstart]
  rfl

/-- Without a packet to open it with, a handshake counts as one that was opened. -/
theorem start_of_error (hclock : clock readings = some now) {fault : ProtocolError}
    (hencode : services.registry.encode .outgoing (⟨nonce, now, 0⟩ : Handshake) = .error fault) :
    let opened := start services id peer nonce clock metrics readings writeFault
    opened.outcome = some (.failed fault) ∧ opened.written = [] ∧ opened.buffer = [] ∧
      opened.session.phase = .handshake ∧
      opened.metrics = metrics.handshakeAttempt.protocolError := by
  unfold start
  dsimp only
  rw [Work.run_bind, run_openHandshake _ hclock rfl, Work.run_onSession]
  unfold Session.send Session.sendRecord
  dsimp only
  rw [show services.registry.encodeRecord .outgoing _ _ = .error fault from hencode]
  exact ⟨rfl, rfl, rfl, rfl, rfl⟩

variable (nonce) in
/-- A registry without any packet has none to open a handshake with. -/
theorem start_of_empty (hclock : clock readings = some now) (hempty : services.registry = {}) :
    let opened := start services id peer nonce clock metrics readings writeFault
    opened.outcome = some (.failed (.unknownHeader Handshake.key.header)) ∧ opened.written = [] ∧
      opened.buffer = [] ∧ opened.session.phase = .handshake ∧
      opened.metrics = metrics.handshakeAttempt.protocolError := by
  refine start_of_error id peer metrics writeFault hclock ?_
  rw [hempty]
  rfl

/-- A connection that was opened when the clock showed `now`, with its opening packet delivered. -/
def greeted (services : Services) (id : SessionId) (peer : Option SocketAddress)
    (nonce now : UInt32) (metrics : Metrics) (readings : Nat) (d : Delivery) : Connection where
  services := services
  session := (Desk.opened services id peer nonce now readings).session
  metrics := metrics.handshakeAttempt.packetsHanded d.taken
  written := d.written
  readings := readings + 1
  writeFault := d.writeFault

theorem start_of_encode (hclock : clock readings = some now) {opening : Bytes}
    (hencode : services.registry.encode .outgoing (⟨nonce, now, 0⟩ : Handshake) = .ok opening) :
    let d := deliver writeFault [opening]
    start services id peer nonce clock metrics readings writeFault =
      match d.error with
      | none => greeted services id peer nonce now metrics readings d
      | some error => (greeted services id peer nonce now metrics readings d).finish
          (.failed (Work.peerGone error)) := by
  -- the opening packet is queued, then delivered; no byte has come in that could be dealt with
  have hflush := Work.run_flush
    { services
      session := { (Desk.opened services id peer nonce now readings).session with
        outbox := [opening] }
      metrics := metrics.handshakeAttempt
      readings := readings + 1
      writeFault }
  unfold start
  dsimp only
  rw [Work.run_bind, run_openHandshake _ hclock rfl, Work.run_onSession]
  unfold Session.send Session.sendRecord
  dsimp only
  rw [show services.registry.encodeRecord .outgoing _ _ = .ok opening from hencode]
  simp only [Desk.opened, Session.drain, List.nil_append] at hflush ⊢
  rw [hflush, Work.deliveredAs]
  cases (deliver writeFault [opening]).error with
  | some error => rfl
  | none =>
    dsimp only
    rw [pump, if_neg (by simp [delivered]), Work.run_takeFrame_of_none rfl]
    rfl

/-- Where the opening packet is written, the connection waits. -/
theorem start_of_written (hclock : clock readings = some now) {opening : Bytes}
    (hencode : services.registry.encode .outgoing (⟨nonce, now, 0⟩ : Handshake) = .ok opening)
    (hwrite : (deliver writeFault [opening]).error = none) :
    start services id peer nonce clock metrics readings writeFault =
      greeted services id peer nonce now metrics readings
        ⟨[opening], opening, (deliver writeFault [opening]).writeFault, none⟩ := by
  obtain ⟨htaken, hwritten⟩ := (deliver_sound writeFault [opening]).complete hwrite
  rw [start_of_encode id peer metrics writeFault hclock hencode, hwrite]
  dsimp only
  rw [greeted, greeted, htaken, hwritten, List.flatten_singleton, List.nil_append]

/-- Where it is not, the connection has ended. -/
theorem start_of_unwritten (hclock : clock readings = some now) {opening : Bytes}
    (hencode : services.registry.encode .outgoing (⟨nonce, now, 0⟩ : Handshake) = .ok opening)
    {error : StreamError} (hwrite : (deliver writeFault [opening]).error = some error) :
    start services id peer nonce clock metrics readings writeFault =
      (greeted services id peer nonce now metrics readings (deliver writeFault [opening])).finish
        (.failed (Work.peerGone error)) := by
  rw [start_of_encode id peer metrics writeFault hclock hencode, hwrite]

end

/-! ## Events -/

/-- What may happen to a connection. -/
inductive Event where
  | bytes (chunk : Bytes)
  | streamEnd
  | readFault (fault : StreamError)
  /-- Writes fail, once those that still succeed are done. -/
  | writeFault (fault : WriteFault)
  /-- A shutdown is asked for. -/
  | cancel
  | elapse (d : Duration)

/-- The connection after an event. -/
def Event.apply (clock : Clock) (c : Connection) : Event → Connection
  | bytes chunk => c.receive clock chunk
  | streamEnd => c.endStream
  | readFault fault => c.failRead fault
  | writeFault fault => c.failWrites fault
  | cancel => c.cancel
  | elapse d => c.elapse d

/-- The turns in which an event is dealt with: packets are complete only when bytes arrive. -/
def Event.turns (clock : Clock) (c : Connection) : Event → List Turn
  | bytes chunk =>
    if c.hasEnded then [] else Connection.turns clock { c with buffer := c.buffer ++ chunk }
  | streamEnd | readFault _ | writeFault _ | cancel | elapse _ => []

/-- The connection after some events. -/
def run (clock : Clock) (c : Connection) (events : List Event) : Connection :=
  events.foldl (Event.apply clock) c

/-- The turns of a run. -/
def runTurns (clock : Clock) : Connection → List Event → List Turn
  | _, [] => []
  | c, event :: rest => event.turns clock c ++ runTurns clock (event.apply clock c) rest

/-- What some turns make of a connection at a desk: they are one service of their packets, they
alone move the desk, and where the last of them ends the connection, it has ended. -/
structure Serves (services : Services) (clock : Clock) (desk : Desk) (turns : List Turn)
    (last : Connection) : Prop where
  services_eq : last.services = services
  turns_eq : turns = desk.serveAll services clock (turns.map (·.frame))
  desk_eq : last.desk = desk.leave turns
  outcome {outcome : Outcome} : outcomeOf turns = some outcome →
    last.outcome = some outcome ∨ outcome = .finished ∧ last.hasEnded = true

variable {services : Services} {clock : Clock} {desk : Desk} {c last : Connection}
  {turns more : List Turn}

theorem hasEnded_of_outcome {outcome : Outcome} (h : c.outcome = some outcome) :
    c.hasEnded = true := by
  rw [hasEnded, h]
  rfl

theorem Pumps.serves_all (h : Pumps clock c turns last) :
    Serves c.services clock c.desk turns last where
  services_eq := h.services_eq
  turns_eq := h.serves
  desk_eq := h.desk_eq
  outcome := by
    intro outcome houtcome
    refine (h.outcome_eq houtcome).imp_right ?_
    rintro ⟨hfinished, fault, -, hfailed⟩
    exact ⟨hfinished, hasEnded_of_outcome hfailed⟩

theorem serves_nil (hservices : last.services = services) (hdesk : last.desk = desk) :
    Serves services clock desk [] last where
  services_eq := hservices
  turns_eq := rfl
  desk_eq := hdesk
  outcome := by
    intro outcome houtcome
    cases houtcome

/-- Turns that do not end the connection are followed by others. -/
theorem Serves.append (h : Serves services clock desk turns c) (hnone : outcomeOf turns = none)
    (hmore : Serves services clock c.desk more last) :
    Serves services clock desk (turns ++ more) last where
  services_eq := hmore.services_eq
  turns_eq := by
    have hserve : outcomeOf (desk.serveAll services clock (turns.map (·.frame))) = none :=
      h.turns_eq ▸ hnone
    rw [List.map_append, Desk.serveAll_append hserve, ← h.turns_eq, ← h.desk_eq, ← hmore.turns_eq]
  desk_eq := by rw [Desk.leave_append, ← h.desk_eq, hmore.desk_eq]
  outcome := by
    intro outcome houtcome
    rw [outcomeOf_append hnone] at houtcome
    exact hmore.outcome houtcome

/-- An event changes nothing once the connection has ended. -/
theorem Event.apply_of_ended (clock : Clock) (h : c.hasEnded = true) (event : Event) :
    event.apply clock c = c ∧ event.turns clock c = [] := by
  cases event with
  | bytes chunk => exact ⟨if_pos h, if_pos h⟩
  | streamEnd | readFault | writeFault | cancel | elapse => exact ⟨if_pos h, rfl⟩

theorem run_of_ended (clock : Clock) (h : c.hasEnded = true) (events : List Event) :
    run clock c events = c ∧ runTurns clock c events = [] := by
  induction events with
  | nil => exact ⟨rfl, rfl⟩
  | cons event events ih =>
    obtain ⟨happly, hturns⟩ := event.apply_of_ended clock h
    rw [run, List.foldl_cons, runTurns, happly, hturns]
    exact ih

theorem Event.serves (clock : Clock) (hsound : c.services.registry.Sound) (event : Event) :
    Serves c.services clock c.desk (event.turns clock c) (event.apply clock c) := by
  by_cases hended : c.hasEnded = true
  · obtain ⟨happly, hturns⟩ := event.apply_of_ended clock hended
    rw [happly, hturns]
    exact serves_nil rfl rfl
  · cases event with
    | bytes chunk =>
      rw [Event.turns, Event.apply, receive, if_neg hended, if_neg hended]
      exact (pumps clock (c := { c with buffer := c.buffer ++ chunk }) hsound).serves_all
    | streamEnd =>
      rw [Event.turns, Event.apply, endStream, if_neg hended]
      split <;> exact serves_nil rfl rfl
    | readFault fault =>
      rw [Event.turns, Event.apply, failRead, if_neg hended]
      exact serves_nil rfl rfl
    | writeFault fault =>
      rw [Event.turns, Event.apply, failWrites, if_neg hended]
      exact serves_nil rfl rfl
    | cancel =>
      rw [Event.turns, Event.apply, Connection.cancel, if_neg hended]
      exact serves_nil rfl rfl
    | elapse d =>
      rw [Event.turns, Event.apply, Connection.elapse, if_neg hended]
      dsimp only
      split <;> exact serves_nil rfl rfl

/-- The turns of a run are one service of their packets, and they alone move its desk. -/
theorem run_serves (clock : Clock) (hsound : c.services.registry.Sound) (events : List Event) :
    Serves c.services clock c.desk (runTurns clock c events) (run clock c events) := by
  induction events generalizing c with
  | nil => exact serves_nil rfl rfl
  | cons event events ih =>
    have hfirst := event.serves clock hsound
    rw [run, List.foldl_cons, runTurns]
    cases houtcome : outcomeOf (event.turns clock c) with
    | some outcome =>
      have hended : (event.apply clock c).hasEnded = true := by
        rcases hfirst.outcome houtcome with hend | ⟨-, hend⟩
        · exact hasEnded_of_outcome hend
        · exact hend
      obtain ⟨hrun, hturns⟩ := run_of_ended clock hended events
      rw [run] at hrun
      rw [hrun, hturns, List.append_nil]
      exact hfirst
    | none =>
      have hrest := ih (c := event.apply clock c) (hfirst.services_eq ▸ hsound)
      rw [hfirst.services_eq] at hrest
      exact hfirst.append houtcome hrest

end PacketWire.Connection
