import PacketWire.Proofs.Connection.Ledger
import PacketWire.Proofs.Connection.Stream

/-!
# The counters of a connection

The counters of a connection are those of its ledger, turn after turn and event after event, until
it has ended.

* `Balanced`: a connection whose counters say what it has done.
* `Pumps.balanced`: the turns of `pump` keep it balanced, by induction on them.
* `run_balances`: so a run that has ended has counted what it did, and each fault once.
-/

namespace PacketWire.Connection

/-! ## Balance -/

/-- The packets that a connection hands to its stream in some turns. -/
def handedIn : Option WriteFault → List Turn → List Bytes
  | _, [] => []
  | writeFault, t :: rest =>
    (deliver writeFault t.replies).taken ++
      handedIn (deliver writeFault t.replies).writeFault rest

/-- A connection to which some bytes have come, which has read some packets of them and handed some
to its stream. -/
structure Booked (services : Services) (arrived : Bytes) (frames : List Frame)
    (packets : List Bytes) (c : Connection) : Prop where
  services_eq : c.services = services
  registry_eq : c.session.registry = services.registry
  /-- The packets read are the bytes that were taken off. -/
  taken : ∃ taken, arrived = taken ++ c.buffer ∧ taken.length = (frames.map (·.length)).sum
  /-- What is written was handed over. -/
  written : c.written <+: packets.flatten

/-- Such a connection, if its counters say so. -/
structure Balanced (services : Services) (arrived : Bytes) (frames : List Frame)
    (packets : List Bytes) (c : Connection) : Prop
    extends Booked services arrived frames packets c where
  metrics_eq :
    c.metrics = .ledger c.session.phase (c.outcome.bind Outcome.failure?) frames packets
  /-- Only an open handshake fails. -/
  refused {fault : ProtocolError} : c.outcome = some (.failed fault) →
    fault.blame? = some .handshake → c.session.phase = .handshake
  /-- What is handed over is written, unless a write failed. -/
  unwritten : c.written ≠ packets.flatten →
    ∃ fault, c.writeFault = some fault ∧ c.outcome = some (.failed (Work.peerGone fault.error))

section

variable {services : Services} {arrived : Bytes} {frames : List Frame} {packets : List Bytes}
  {c : Connection}

/-- A connection that ends by a fault counts it. -/
theorem Booked.fail (h : Booked services arrived frames packets c) {fault : ProtocolError}
    {metrics : Metrics}
    (hmetrics : metrics.protocolError = .ledger c.session.phase (some fault) frames packets)
    (hrefused : fault.blame? = some .handshake → c.session.phase = .handshake)
    (hwritten : c.written ≠ packets.flatten →
      ∃ lost, c.writeFault = some lost ∧ fault = Work.peerGone lost.error) :
    Balanced services arrived frames packets ({ c with metrics }.finish (.failed fault)) where
  services_eq := h.services_eq
  registry_eq := h.registry_eq
  taken := h.taken
  written := h.written
  metrics_eq := hmetrics
  refused := by
    intro other hother
    cases hother
    exact hrefused
  unwritten := by
    intro hne
    obtain ⟨lost, hlost, rfl⟩ := hwritten hne
    exact ⟨lost, hlost, rfl⟩

namespace Balanced

variable (h : Balanced services arrived frames packets c) (houtcome : c.outcome = none)
include h houtcome

theorem ledger : c.metrics = .ledger c.session.phase none frames packets := by
  have hmetrics := h.metrics_eq
  rwa [houtcome] at hmetrics

/-- As long as a connection goes on, all that was handed over is written. -/
theorem written_eq : c.written = packets.flatten := by
  by_contra hne
  obtain ⟨fault, -, hend⟩ := h.unwritten hne
  exact absurd (houtcome.symm.trans hend) (by simp)

/-- A connection that ends without a fault counts nothing. -/
theorem finish (outcome : Outcome) (hend : outcome.failure? = none) :
    Balanced services arrived frames packets (c.finish outcome) := by
  have hledger := h.ledger houtcome
  have hwritten := h.written_eq houtcome
  cases outcome with
  | failed => cases hend
  | finished | aborted =>
    exact ⟨⟨h.services_eq, h.registry_eq, h.taken, h.written⟩, hledger,
      fun hfault => (by cases hfault), fun hne => absurd hwritten hne⟩

theorem fail {fault : ProtocolError} {metrics : Metrics}
    (hmetrics : metrics.protocolError = .ledger c.session.phase (some fault) frames packets)
    (hrefused : fault.blame? = some .handshake → c.session.phase = .handshake) :
    Balanced services arrived frames packets ({ c with metrics }.finish (.failed fault)) :=
  h.toBooked.fail hmetrics hrefused fun hne => absurd (h.written_eq houtcome) hne

/-- Replies that are all written leave nothing unwritten. -/
theorem written_served {t : Turn} (hwrite : (deliver c.writeFault t.replies).error = none)
    (rest : Bytes) (metrics : Metrics) :
    (c.served t rest metrics).written =
      (packets ++ (deliver c.writeFault t.replies).taken).flatten := by
  obtain ⟨htaken, hwritten⟩ := (deliver_sound c.writeFault t.replies).complete hwrite
  rw [htaken, List.flatten_append, ← h.written_eq houtcome]
  exact congrArg (c.written ++ ·) hwritten

section

variable (hready : services.Ready) {clock : Clock} {frame : Frame} {rest : Bytes} {t : Turn}
  (hserve : c.desk.serve c.services clock frame = t)
include hready hserve

/-- The counters, when a packet has been dealt with. -/
theorem tallied :
    t.Tallied (.ledger t.before.session.phase none (frames ++ [t.frame]) packets)
        (c.counted clock t) ∧
      t.after.session.registry = services.registry := by
  subst hserve
  have hframe : (c.desk.serve c.services clock frame).frame = frame := (c.desk.serve_frame frame).1
  have hbefore : (c.desk.serve c.services clock frame).before = c.desk :=
    (c.desk.serve_frame frame).2
  have hgreets : c.desk.session.registry.Greets := h.registry_eq.symm ▸ hready.greets
  have hannounces : c.desk.session.registry.Announces := h.registry_eq.symm ▸ hready.announces
  have hspares : c.services.dispatcher.Spares .session := h.services_eq.symm ▸ hready.spares
  obtain ⟨htallied, hregistry⟩ := Desk.tallied clock hgreets hannounces hspares frame
    (.ledger c.session.phase none (frames ++ [frame]) packets)
  rw [counted, hframe, hbefore, h.ledger houtcome, Metrics.packetReceived_ledger]
  exact ⟨htallied, hregistry.trans h.registry_eq⟩

variable (hnext : c.services.reader.next c.buffer = .ok (some (frame, rest)))
include hnext

omit houtcome in
theorem taken_served : ∃ taken, arrived = taken ++ rest ∧
    taken.length = ((frames ++ [t.frame]).map (·.length)).sum := by
  subst hserve
  obtain ⟨taken, harrived, hlength⟩ := h.taken
  have hready : c.services.Ready := h.services_eq ▸ hready
  obtain ⟨hle, hrest⟩ := FrameReader.next_frame_of_limit hready.sound hready.limit hnext
  refine ⟨taken ++ c.buffer.take frame.length, ?_, ?_⟩
  · rw [hrest, List.append_assoc, List.take_append_drop]
    exact harrived
  · rw [(c.desk.serve_frame frame).1, List.map_append, List.sum_append, List.length_append,
      List.length_take, hlength]
    simpa using hle

/-- What a turn leaves, whatever becomes of its replies. -/
theorem served (metrics : Metrics) :
    Booked services arrived (frames ++ [t.frame])
      (packets ++ (deliver c.writeFault t.replies).taken) (c.served t rest metrics) where
  services_eq := h.services_eq
  registry_eq := t.left_session.2.2.trans (h.tallied houtcome hready hserve).2
  taken := h.taken_served hready hserve hnext
  written := by
    have hreplies := (deliver_sound c.writeFault t.replies).written
    rw [List.flatten_append, ← h.written_eq houtcome]
    exact (List.prefix_append_right_inj c.written).mpr hreplies

/-- A packet that has been dealt with, and whose replies are written. -/
theorem goesOn (hgoes : ∀ fault, t.stop ≠ some (.fault fault))
    (hwrite : (deliver c.writeFault t.replies).error = none) :
    Balanced services arrived (frames ++ [t.frame])
      (packets ++ (deliver c.writeFault t.replies).taken)
      (c.served t rest (c.counted clock t)) where
  toBooked := h.served houtcome hready hserve hnext _
  metrics_eq := by
    have hcounted := (h.tallied houtcome hready hserve).1.ledger_of_goesOn hgoes
    rw [show (c.served t rest _).outcome = none from houtcome, Option.bind_none,
      show (c.served t rest _).session.phase = t.after.session.phase from t.left_session.1,
      ← Metrics.packetsHanded_ledger, ← hcounted]
    rfl
  refused := by
    intro fault hfault
    exact absurd (houtcome.symm.trans hfault) (by simp)
  unwritten := fun hne => absurd (h.written_served houtcome hwrite _ _) hne

/-- A packet that is dealt with up to a fault. Nothing is written. -/
theorem stopped {fault : ProtocolError} (hstop : t.stop = some (.fault fault)) :
    Balanced services arrived (frames ++ [t.frame])
      (packets ++ (deliver c.writeFault t.replies).taken)
      ((c.served t rest (c.counted clock t)).finish (.failed fault)) := by
  obtain ⟨hcounted, hrefused⟩ := (h.tallied houtcome hready hserve).1.ledger_of_fault hstop
  have hreplies : t.replies = [] := by rw [Turn.replies, hstop]
  have hserved := h.served houtcome hready hserve hnext (c.counted clock t)
  have hphase : (c.served t rest (c.counted clock t)).session.phase = t.after.session.phase :=
    t.left_session.1
  have hwrite : (deliver c.writeFault t.replies).error = none := by rw [hreplies, deliver_nil]
  refine hserved.fail ?_ (fun hblame => hphase.trans (hrefused hblame))
    (fun hne => absurd (h.written_served houtcome hwrite _ _) hne)
  rw [hphase, hreplies, deliver_nil, List.append_nil]
  exact hcounted

/-- A packet whose replies cannot be written. -/
theorem unanswered (hstop : t.stop = none) {error : StreamError}
    (hwrite : (deliver c.writeFault t.replies).error = some error) :
    Balanced services arrived (frames ++ [t.frame])
      (packets ++ (deliver c.writeFault t.replies).taken)
      ((c.served t rest (c.counted clock t)).finish (.failed (Work.peerGone error))) := by
  have hblame := Work.blame?_peerGone error
  have hcounted := (h.tallied houtcome hready hserve).1.ledger_of_goesOn (by simp [hstop])
  have hserved := h.served houtcome hready hserve hnext (c.counted clock t)
  have hphase : (c.served t rest (c.counted clock t)).session.phase = t.after.session.phase :=
    t.left_session.1
  refine hserved.fail ?_ (by simp [hblame]) (fun _ => ?_)
  · rw [hphase, ← Metrics.protocolError_ledger hblame, ← Metrics.packetsHanded_ledger, ← hcounted]
    rfl
  · obtain ⟨fault, hfault, rfl⟩ := (deliver_sound c.writeFault t.replies).failed hwrite
    exact ⟨fault, hfault, rfl⟩

end

end Balanced

end

/-- The turns of `pump` keep the counters at the ledger. -/
theorem Pumps.balanced {services : Services} (hready : services.Ready) {clock : Clock}
    {c last : Connection} {turns : List Turn} (hpumps : Pumps clock c turns last) {arrived : Bytes}
    {frames : List Frame} {packets : List Bytes}
    (h : Balanced services arrived frames packets c) (houtcome : c.outcome = none) :
    Balanced services arrived (frames ++ turns.map (·.frame))
      (packets ++ handedIn c.writeFault turns) last := by
  induction hpumps generalizing frames packets with
  | closed =>
    rw [handedIn, List.map_nil, List.append_nil, List.append_nil]
    exact h.finish houtcome .finished rfl
  | failed _ hnext =>
    rw [handedIn, List.map_nil, List.append_nil, List.append_nil]
    obtain ⟨hhandshake, hhandler⟩ := FrameReader.next_blame? hnext
    refine h.fail houtcome ?_ fun hblame => absurd hblame hhandshake
    rw [h.ledger houtcome]
    exact Metrics.readFailed_ledger hhandshake hhandler
  | waits =>
    rw [handedIn, List.map_nil, List.append_nil, List.append_nil]
    exact h
  | @stopped c frame rest t stop _ hnext _ hserve hstop =>
    rw [handedIn, handedIn, List.append_nil]
    cases stop with
    | fault fault => exact h.stopped houtcome hready hserve hnext hstop
    | abort =>
      have hreplies : t.replies = [] := by rw [Turn.replies, hstop]
      have hwrite : (deliver c.writeFault t.replies).error = none := by rw [hreplies, deliver_nil]
      exact (h.goesOn houtcome hready hserve hnext (by simp [hstop]) hwrite).finish houtcome
        .aborted rfl
  | unwritten _ hnext _ hserve hstop hwrite =>
    rw [handedIn, handedIn, List.append_nil]
    exact h.unanswered houtcome hready hserve hnext hstop hwrite
  | goesOn _ hnext _ hserve hstop hwrite _ ih =>
    rw [List.map_cons, handedIn, ← List.singleton_append, ← List.append_assoc,
      ← List.append_assoc]
    exact ih (h.goesOn houtcome hready hserve hnext (by simp [hstop]) hwrite) houtcome

/-! ## Runs -/

/-- The bytes that an event brings to a connection. -/
def Event.input (c : Connection) : Event → Bytes
  | bytes chunk => if c.hasEnded then [] else chunk
  | streamEnd | readFault _ | writeFault _ | cancel | elapse _ => []

/-- The bytes that come to a connection before it ends. -/
def runInput (clock : Clock) : Connection → List Event → Bytes
  | _, [] => []
  | c, event :: rest => event.input c ++ runInput clock (event.apply clock c) rest

/-- The packets that a connection hands to its stream in a run. -/
def runHanded (clock : Clock) : Connection → List Event → List Bytes
  | _, [] => []
  | c, event :: rest =>
    handedIn c.writeFault (event.turns clock c) ++ runHanded clock (event.apply clock c) rest

section

variable {services : Services} (hready : services.Ready) (clock : Clock) {arrived : Bytes}
  {frames : List Frame} {packets : List Bytes} {c : Connection}
  (h : Balanced services arrived frames packets c)
include hready h

theorem Event.balanced (event : Event) :
    Balanced services (arrived ++ event.input c)
      (frames ++ (event.turns clock c).map (·.frame))
      (packets ++ handedIn c.writeFault (event.turns clock c)) (event.apply clock c) := by
  by_cases hended : c.hasEnded = true
  · obtain ⟨happly, hturns⟩ := event.apply_of_ended clock hended
    have hinput : event.input c = [] := by
      cases event with
      | bytes => exact if_pos hended
      | streamEnd | readFault | writeFault | cancel | elapse => rfl
    rw [happly, hturns, hinput]
    simpa [handedIn] using h
  · have houtcome : c.outcome = none := by simpa [hasEnded] using hended
    cases event with
    | bytes chunk =>
      rw [Event.turns, Event.apply, Event.input, receive, if_neg hended, if_neg hended,
        if_neg hended]
      obtain ⟨taken, harrived, hlength⟩ := h.taken
      have hmore : Balanced services (arrived ++ chunk) frames packets
          { c with buffer := c.buffer ++ chunk } :=
        ⟨⟨h.services_eq, h.registry_eq, ⟨taken, by rw [harrived, List.append_assoc], hlength⟩,
          h.written⟩, h.metrics_eq, h.refused, h.unwritten⟩
      have hsound : ({ c with buffer := c.buffer ++ chunk } : Connection).services.registry.Sound :=
        h.services_eq ▸ hready.sound
      exact (pumps clock hsound).balanced hready hmore houtcome
    | streamEnd =>
      rw [Event.turns, Event.apply, Event.input, endStream, if_neg hended]
      simp only [handedIn, List.map_nil, List.append_nil]
      split
      · exact h.finish houtcome .finished rfl
      · refine h.fail houtcome ?_ (by simp [ProtocolError.blame?])
        rw [h.ledger houtcome]
        exact Metrics.protocolError_ledger rfl
    | readFault fault =>
      rw [Event.turns, Event.apply, Event.input, failRead, if_neg hended]
      simp only [handedIn, List.map_nil, List.append_nil]
      refine h.fail houtcome ?_ (by simp [ProtocolError.blame?])
      rw [h.ledger houtcome]
      exact Metrics.protocolError_ledger rfl
    | writeFault fault =>
      rw [Event.turns, Event.apply, Event.input, failWrites, if_neg hended]
      simp only [handedIn, List.map_nil, List.append_nil]
      exact ⟨⟨h.services_eq, h.registry_eq, h.taken, h.written⟩, h.metrics_eq, h.refused,
        fun hne => absurd (h.written_eq houtcome) hne⟩
    | cancel =>
      rw [Event.turns, Event.apply, Event.input, Connection.cancel, if_neg hended]
      simp only [handedIn, List.map_nil, List.append_nil]
      exact h.finish houtcome .finished rfl
    | elapse d =>
      rw [Event.turns, Event.apply, Event.input, Connection.elapse, if_neg hended]
      simp only [handedIn, List.map_nil, List.append_nil]
      have hlater : Balanced services arrived frames packets
          { c with elapsed := ⟨c.elapsed.micros + d.micros⟩ } :=
        ⟨⟨h.services_eq, h.registry_eq, h.taken, h.written⟩, h.metrics_eq, h.refused, h.unwritten⟩
      split
      · next hdue =>
        have hphase : c.session.phase = .handshake :=
          of_decide_eq_true (Bool.and_eq_true_iff.mp hdue).1
        refine hlater.fail houtcome ?_ fun _ => hphase
        rw [h.ledger houtcome]
        exact Metrics.handshakeFailed_ledger rfl
      · exact hlater

/-- The counters stay at the ledger in every run. -/
theorem run_balanced (events : List Event) :
    Balanced services (arrived ++ runInput clock c events)
      (frames ++ (runTurns clock c events).map (·.frame))
      (packets ++ runHanded clock c events) (run clock c events) := by
  induction events generalizing c arrived frames packets with
  | nil =>
    rw [runInput, runTurns, runHanded, List.map_nil, List.append_nil, List.append_nil,
      List.append_nil]
    exact h
  | cons event events ih =>
    have hrest := ih (event.balanced hready clock h)
    rwa [List.append_assoc, List.append_assoc, List.append_assoc, ← List.map_append] at hrest

end

/-- A connection that is opened has counted its handshake and the opening packet, whether that could
be written or not. -/
theorem start_balanced {services : Services} (hready : services.Ready) (id : SessionId)
    (peer : Option SocketAddress) (nonce : UInt32) {now : UInt32} {clock : Clock} {readings : Nat}
    (writeFault : Option WriteFault) (hclock : clock readings = some now) :
    Balanced services [] [] [(⟨nonce, now, 0⟩ : Handshake).bytes]
      (start services id peer nonce clock {} readings writeFault) := by
  have hencode := hready.greets.encode ⟨nonce, now, 0⟩
  have hcounted : Metrics.packetsHanded (.handshakeAttempt {})
      [(⟨nonce, now, 0⟩ : Handshake).bytes] =
        .ledger .handshake none [] [(⟨nonce, now, 0⟩ : Handshake).bytes] := by
    have hattempt : Metrics.handshakeAttempt {} = .ledger .handshake none [] [] := rfl
    rw [hattempt, Metrics.packetsHanded_ledger]
    rfl
  cases hwrite : (deliver writeFault [(⟨nonce, now, 0⟩ : Handshake).bytes]).error with
  | none =>
    rw [start_of_written id peer {} writeFault hclock hencode hwrite]
    exact ⟨⟨rfl, rfl, ⟨[], rfl, rfl⟩, by simp [greeted]⟩, hcounted, fun hfault => (by cases hfault),
      fun hne => absurd (by simp [greeted]) hne⟩
  | some error =>
    have hsound := deliver_sound writeFault [(⟨nonce, now, 0⟩ : Handshake).bytes]
    have htaken : (deliver writeFault [(⟨nonce, now, 0⟩ : Handshake).bytes]).taken =
        [(⟨nonce, now, 0⟩ : Handshake).bytes] := by
      rw [deliver_singleton, Delivery.behind, (Delivery.write_sound _ _).taken_nil]
    obtain ⟨fault, hfault, rfl⟩ := hsound.failed hwrite
    have hblame := Work.blame?_peerGone fault.error
    have hwritten := hsound.written
    rw [htaken, List.nil_append] at hwritten
    rw [start_of_unwritten id peer {} writeFault hclock hencode hwrite]
    have hbooked : Booked services [] [] [(⟨nonce, now, 0⟩ : Handshake).bytes]
        (greeted services id peer nonce now {} readings
          (deliver writeFault [(⟨nonce, now, 0⟩ : Handshake).bytes])) :=
      ⟨rfl, rfl, ⟨[], rfl, rfl⟩, hwritten⟩
    refine hbooked.fail ?_ (by simp [hblame]) (fun _ => ⟨fault, hfault, rfl⟩)
    rw [htaken, hcounted]
    exact Metrics.protocolError_ledger hblame

/-- When a connection has ended, and not because its task broke off, its counters are those of what
it has done: it has opened one handshake, it has read packets off the bytes that came, as many bytes
as it has taken off, and it has handed its stream the opening packet and the replies of its turns;
each fault is counted once, by its kind. A connection whose registry holds no packet at all could
not open its handshake, which is counted as a fault of no kind. -/
theorem run_balances {services : Services} (hregistry : services.registry.Made)
    (hspares : services.dispatcher.Spares .session) (hlimit : services.maxFrameSize < Size.limit)
    (id : SessionId) (peer : Option SocketAddress) (nonce : UInt32) (clock : Clock)
    (readings : Nat) (writeFault : Option WriteFault) (events : List Event) {outcome : Outcome}
    (houtcome : (run clock (start services id peer nonce clock {} readings writeFault)
      events).outcome = some outcome) (hkept : outcome ≠ .aborted) :
    let opened := start services id peer nonce clock {} readings writeFault
    let last := run clock opened events
    let frames := (runTurns clock opened events).map (·.frame)
    ∃ now, clock readings = some now ∧
      (services.registry = {} ∧ outcome = .failed (.unknownHeader Handshake.key.header) ∧
          last.metrics = { handshakesTotal := 1, protocolErrors := 1 } ∧
          last.session.phase = .handshake ∧ frames = [] ∧ last.written = [] ∨
        (∃ table schemas, Registry.build table schemas = .ok services.registry) ∧
          let packets := (⟨nonce, now, 0⟩ : Handshake).bytes :: runHanded clock opened events
          last.metrics.Balances last.session.phase outcome frames packets ∧
            (∃ taken, runInput clock opened events = taken ++ last.buffer ∧
              taken.length = (frames.map (·.length)).sum) ∧
            last.written <+: packets.flatten ∧
            (last.written ≠ packets.flatten → ∃ fault, last.writeFault = some fault ∧
              outcome = .failed (Work.peerGone fault.error))) := by
  dsimp only
  cases hclock : clock readings with
  | none =>
    -- a clock that fails at once breaks the task off
    have hended : (start services id peer nonce clock {} readings writeFault).outcome =
        some .aborted := (start_of_none id peer nonce {} writeFault hclock).1
    rw [(run_of_ended clock (hasEnded_of_outcome hended) events).1, hended] at houtcome
    exact absurd (Option.some.inj houtcome).symm hkept
  | some now =>
    refine ⟨now, rfl, ?_⟩
    rcases hregistry with hempty | ⟨table, schemas, hbuild⟩
    · obtain ⟨hended, hwritten, -, hphase, hmetrics⟩ :=
        start_of_empty id peer nonce {} writeFault hclock hempty
      obtain ⟨hrun, hturns⟩ := run_of_ended clock (hasEnded_of_outcome hended) events
      rw [hrun, hended] at houtcome
      rw [hrun, hturns]
      exact .inl ⟨hempty, (Option.some.inj houtcome).symm, hmetrics, hphase, rfl, hwritten⟩
    · have hready := Services.ready_of_build hbuild hlimit hspares
      have hbalanced := run_balanced hready clock
        (start_balanced hready id peer nonce writeFault hclock) events
      refine .inr ⟨⟨table, schemas, hbuild⟩, ?_, hbalanced.taken, hbalanced.written, fun hne => ?_⟩
      · have hmetrics := hbalanced.metrics_eq
        rw [houtcome, Option.bind_some] at hmetrics
        rw [hmetrics]
        refine Metrics.ledger_balances fun hblame => ?_
        cases outcome with
        | finished | aborted => cases hblame
        | failed fault => exact hbalanced.refused houtcome hblame
      · obtain ⟨fault, hfault, hend⟩ := hbalanced.unwritten hne
        exact ⟨fault, hfault, Option.some.inj (houtcome.symm.trans hend)⟩

/-- A peer that comes through the handshake, gets a ping back and then sends a header that nobody
knows. -/
theorem run_balances_ping : ∃ registry : Registry, registry.Made ∧
    let services := pingServices registry
    services.dispatcher.Spares .session ∧ services.maxFrameSize < Size.limit ∧
    let opened := start services ⟨1⟩ none 7 (.constant 100) {} 0
    let events := [Event.bytes (Handshake.bytes ⟨7, 100, 0⟩ ++ [0x10]), .bytes [1, 0x77]]
    let last := run (.constant 100) opened events
    let frames := (runTurns (.constant 100) opened events).map (·.frame)
    last.outcome = some (.failed (.unknownHeader 0x77)) ∧
      last.metrics =
        { handshakesTotal := 1, handshakesSuccess := 1, packetsSent := 3, packetsReceived := 2,
          bytesSent := 17, bytesReceived := 15, unknownHeaders := 1, protocolErrors := 1 } ∧
      ∃ now, Clock.constant 100 0 = some now ∧
        let packets := (⟨7, now, 0⟩ : Handshake).bytes :: runHanded (.constant 100) opened events
        last.metrics.Balances last.session.phase (.failed (.unknownHeader 0x77)) frames packets ∧
          (∃ taken, runInput (.constant 100) opened events = taken ++ last.buffer ∧
            taken.length = (frames.map (·.length)).sum) ∧
          last.written <+: packets.flatten ∧
          (last.written ≠ packets.flatten → ∃ fault, last.writeFault = some fault ∧
            .failed (.unknownHeader 0x77) = Outcome.failed (Work.peerGone fault.error)) := by
  have hspares := pingServices_spares pingRegistry .session
  have hlimit : (pingServices pingRegistry).maxFrameSize < Size.limit := by
    show 64 * 1024 < Size.limit
    decide
  have houtcome : (run (.constant 100)
      (start (pingServices pingRegistry) ⟨1⟩ none 7 (.constant 100) {} 0)
      [.bytes (Handshake.bytes ⟨7, 100, 0⟩ ++ [0x10]), .bytes [1, 0x77]]).outcome =
        some (.failed (.unknownHeader 0x77)) := by
    decide +kernel
  obtain ⟨now, hclock, hcases⟩ := run_balances made_ping hspares hlimit ⟨1⟩ none 7 (.constant 100) 0
    none _ houtcome (by simp)
  obtain ⟨-, hbalances⟩ := hcases.resolve_left fun hempty => absurd hempty.2.1 (by decide)
  refine ⟨pingRegistry, made_ping, hspares, hlimit, houtcome, ?_, now, hclock, hbalances⟩
  decide +kernel

/-- A server that puts a new session in place of its own at each ping, and closes it. -/
def renewingServices (registry : Registry) : Services where
  registry := registry
  dispatcher := ⟨[(⟨0x10, none⟩,
    fun _ => .replace { id := ⟨2⟩, registry } fun _ => .closeSession)]⟩

/-- Without any packet registered the fault of an unknown header is not counted as one; and when a
handler has replaced the session, a handshake that was settled is counted for one that is open. -/
theorem counters_astray :
    (let opened := start { registry := {} } ⟨1⟩ none 7 (.constant 100) {} 0
      let last := run (.constant 100) opened [.streamEnd]
      last.outcome = some (.failed (.unknownHeader 0xFF)) ∧ last.metrics.unknownHeaders = 0) ∧
    ∃ registry, Registry.build .empty [pingSchema] = .ok registry ∧
      let opened := start (renewingServices registry) ⟨1⟩ none 7 (.constant 100) {} 0
      let last := run (.constant 100) opened
        [.bytes (Handshake.bytes ⟨7, 100, 0⟩ ++ [0x10, 1]), .streamEnd]
      last.outcome = some .finished ∧ last.metrics.handshakesSuccess = 1 ∧
        last.session.phase = .handshake := by
  refine ⟨by decide +kernel, pingRegistry, build_ping, ?_⟩
  decide +kernel

end PacketWire.Connection
