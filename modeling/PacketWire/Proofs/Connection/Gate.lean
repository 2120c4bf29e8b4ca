import PacketWire.Proofs.Connection.Run
import PacketWire.Proofs.Dispatch.Handlers
import PacketWire.Proofs.Handshake.Run

/-!
# The handshake comes first

While the handshake is open, packets are judged as replies and reach no handler. Only a reply with
the nonce of the opening packet, sent by a clock that agrees, settles it; handlers can move the
phase on from there, and never back, as long as they leave the session in its place.

* `Desk.serve_guarded`: what a single turn may do.
* `handshake_gate`: so it is for every turn of every run.
-/

namespace PacketWire

/-! ## Phases -/

theorem ServerMode.phaseAfterHandshake_ne (mode : ServerMode) :
    mode.phaseAfterHandshake ≠ .handshake ∧
      Phase.handshake.canAdvanceTo mode.phaseAfterHandshake = true := by
  cases mode <;> exact ⟨by simp [phaseAfterHandshake], rfl⟩

/-! ## Replies -/

namespace Handshake.State

/-- A reply is refused, or settles the handshake, or is answered by another question with the same
nonce. It settles the handshake only with the right nonce and a clock that agrees. -/
theorem verify_cases {state : State} {nonce : UInt32} (h : state.Awaits nonce)
    (reply : Handshake) (now : UInt32) (settings : HandshakeSettings) :
    (∃ fault after, state.verify reply now settings = (.error fault, after) ∧
        after.Awaits nonce) ∨
      (∃ after, state.verify reply now settings = (.ok .complete, after) ∧
        reply.nonce = nonce ∧ Agrees settings reply now) ∨
      ∃ question after, state.verify reply now settings = (.ok (.retry question), after) ∧
        after.Awaits nonce := by
  cases hverify : state.verify reply now settings with | _ result after
  have hsame : ∀ other, state.Awaits other → other = nonce := fun other hother =>
    Option.some.inj (hother.2.symm.trans h.2)
  cases Judged.of_verify hverify with
  | notStarted hnone => exact absurd h (hnone nonce)
  | mismatch | ahead => exact .inl ⟨_, _, rfl, h⟩
  | settled hother hnonce hagrees =>
    exact .inr (.inl ⟨_, rfl, hnonce.trans (hsame _ hother), hagrees⟩)
  | retry => exact .inr (.inr ⟨_, _, rfl, h⟩)
  | exhausted => exact .inl ⟨_, _, rfl, h⟩

end Handshake.State

/-! ## Turns -/

namespace Connection

/-- The handshake asks for a nonce, as long as it is open. -/
def Desk.Asks (nonce : UInt32) (desk : Desk) : Prop :=
  desk.session.phase = .handshake → desk.session.handshake.Awaits nonce

/-- A packet that settles the handshake at a desk: a reply with the nonce, by a clock that is behind
by no more than the tolerance. -/
def Desk.Settles (services : Services) (clock : Clock) (nonce : UInt32) (desk : Desk)
    (frame : Frame) : Prop :=
  frame.descriptor.key = Handshake.key ∧
    ∃ reply now, Handshake.ofRecord frame.record = .ok reply ∧ reply.nonce = nonce ∧
      clock desk.readings = some now ∧
      0 ≤ Handshake.State.difference now (reply.time + reply.delta) ∧
      Handshake.State.difference now (reply.time + reply.delta) ≤
        services.handshake.toleranceMs.toNat

/-- A turn that keeps the order of things: the handshake first, then everything else. -/
structure Turn.Guarded (services : Services) (clock : Clock) (nonce : UInt32) (t : Turn) :
    Prop where
  /-- While the handshake is open, and for every handshake packet, nothing is dispatched, and the
  turn is the same whatever the handlers are. -/
  undispatched : t.before.session.phase = .handshake ∨ t.frame.descriptor.key = Handshake.key →
    t.after.dispatched = t.before.dispatched ∧
      ∀ dispatcher, t.before.serve { services with dispatcher } clock t.frame = t
  /-- Only a packet that settles the handshake leads out of it, to the phase that the mode says. -/
  settles : t.before.session.phase = .handshake → t.after.session.phase ≠ .handshake →
    t.before.Settles services clock nonce t.frame ∧
      t.after.session.phase = services.mode.phaseAfterHandshake
  /-- Nothing leads back into the handshake. -/
  advances : t.before.session.phase ≠ .handshake → t.after.session.phase ≠ .handshake
  /-- Any other packet while the handshake is open, and a handshake packet later, is refused. -/
  refuses : ¬(t.before.session.phase = .handshake ↔ t.frame.descriptor.key = Handshake.key) →
    t.after = t.before ∧ t.stop =
      some (.fault (.unexpectedPacket t.frame.descriptor.name t.before.session.phase))

theorem Turn.left_session (t : Turn) :
    t.left.session.phase = t.after.session.phase ∧
      t.left.session.handshake = t.after.session.handshake ∧
      t.left.session.registry = t.after.session.registry := by
  unfold left
  split <;> exact ⟨rfl, rfl, rfl⟩

namespace Desk

variable (services : Services) (clock : Clock) {nonce : UInt32} {desk : Desk}

/-- A handshake packet while the handshake is open leaves it open and asking for the same nonce, or
settles it. No handler takes part. -/
theorem serve_reply_cases (h : desk.Asks nonce) {frame : Frame}
    (hphase : desk.session.phase = .handshake) (hkey : frame.descriptor.key = Handshake.key) :
    ∃ t, (∀ dispatcher, desk.serve { services with dispatcher } clock frame = t) ∧
      t.after.dispatched = desk.dispatched ∧
      ((t.after.session.phase = .handshake ∧ t.after.session.handshake.Awaits nonce) ∨
        desk.Settles services clock nonce frame ∧
          t.after.session.phase = services.mode.phaseAfterHandshake) := by
  have hawaits := h hphase
  cases hreply : Handshake.ofRecord frame.record with
  | error fault =>
    exact ⟨_, fun _ => serve_malformed hphase hkey hreply, rfl,
      .inl ⟨hphase, hawaits⟩⟩
  | ok reply =>
    cases hclock : clock desk.readings with
    | none =>
      refine ⟨⟨frame, desk, ⟨desk.session, desk.dispatched, desk.readings + 1⟩, some .abort⟩,
        fun _ => ?_, rfl, .inl ⟨hphase, hawaits⟩⟩
      rw [serve_reply hphase hkey hreply, hclock]
    | some now =>
      rcases Handshake.State.verify_cases hawaits reply now services.handshake with
        ⟨fault, handshake, hverify, hstill⟩ | ⟨handshake, hverify, hnonce, hclose⟩ |
        ⟨question, handshake, hverify, hstill⟩
      · have hserve (dispatcher) : desk.serve { services with dispatcher } clock frame =
            .of frame desk (.error (.handshake fault), { desk.session with handshake })
              desk.dispatched (desk.readings + 1) := by
          rw [serve_reply hphase hkey hreply, hclock]
          dsimp only
          rw [Session.verifyHandshake, hverify]
        exact ⟨_, hserve, rfl, .inl ⟨hphase, hstill⟩⟩
      · have hserve (dispatcher) : desk.serve { services with dispatcher } clock frame =
            .of frame desk
              ({ desk.session with handshake }.setPhase services.mode.phaseAfterHandshake)
              desk.dispatched (desk.readings + 1) := by
          rw [serve_reply hphase hkey hreply, hclock]
          dsimp only
          rw [Session.verifyHandshake, hverify]
        obtain ⟨hne, hadvance⟩ := services.mode.phaseAfterHandshake_ne
        rw [← hphase] at hne hadvance
        exact ⟨_, hserve, rfl,
          .inr ⟨⟨hkey, reply, now, hreply, hnonce, hclock, hclose⟩,
            Session.phase_setPhase_of_canAdvanceTo _ hne hadvance⟩⟩
      · have hserve (dispatcher) : desk.serve { services with dispatcher } clock frame =
            .of frame desk ({ desk.session with handshake }.send question) desk.dispatched
              (desk.readings + 1) := by
          rw [serve_reply hphase hkey hreply, hclock]
          dsimp only
          rw [Session.verifyHandshake, hverify]
        obtain ⟨outbox, -, hsend⟩ := { desk.session with handshake }.sendRecord_eq
          (TypedPacket.key Handshake) (RecordForm.toRecord question)
        refine ⟨_, hserve, rfl, .inl ?_⟩
        rw [Turn.of, Session.send, hsend]
        exact ⟨hphase, hstill⟩

section

variable {services} (hspares : services.dispatcher.Spares .session)
include hspares

/-- What a single turn may do. -/
theorem serve_guarded (h : desk.Asks nonce) (frame : Frame) :
    (desk.serve services clock frame).Guarded services clock nonce ∧
      (desk.serve services clock frame).left.Asks nonce := by
  by_cases hexpected : desk.session.phase = .handshake ↔ frame.descriptor.key = Handshake.key
  · by_cases hphase : desk.session.phase = .handshake
    · obtain ⟨t, hserve, hdispatched, hcases⟩ :=
        serve_reply_cases services clock h hphase (hexpected.mp hphase)
      have hself : desk.serve services clock frame = t := hserve services.dispatcher
      obtain ⟨hframe, hbefore⟩ : t.frame = frame ∧ t.before = desk := hself ▸ desk.serve_frame frame
      rw [hself]
      subst hframe hbefore
      refine ⟨⟨fun _ => ⟨hdispatched, hserve⟩, fun _ hleft => ?_, fun hne => absurd hphase hne,
        fun hne => absurd hexpected hne⟩, fun hopen => ?_⟩
      · exact hcases.resolve_left fun hsame => hleft hsame.1
      · obtain ⟨hsame, hhandshake, -⟩ := t.left_session
        rw [hhandshake]
        refine (hcases.resolve_right fun hsettled => ?_).2
        exact services.mode.phaseAfterHandshake_ne.1 (hsettled.2.symm.trans (hsame.symm.trans hopen))
    · have hkey : frame.descriptor.key ≠ Handshake.key := fun hkey => hphase (hexpected.mpr hkey)
      have hbefore : (⟨frame.record, frame.descriptor, desk.session⟩ : Context).session.phase ≠
          .handshake := hphase
      have hafter :=
        Dispatcher.dispatch_kept Session.kept_phase hspares desk.dispatched hbefore
      rw [serve_dispatch hphase hkey]
      dsimp only
      refine ⟨⟨fun hguard => absurd hguard (not_or.mpr ⟨hphase, hkey⟩),
        fun hopen => absurd hopen hphase, fun _ => hafter, fun hne => absurd hexpected hne⟩,
        fun hopen => ?_⟩
      rw [(Turn.left_session _).1] at hopen
      exact absurd hopen hafter
  · have hserve (dispatcher) : desk.serve { services with dispatcher } clock frame = _ :=
      serve_unexpected hexpected
    rw [serve_unexpected hexpected]
    exact ⟨⟨fun _ => ⟨rfl, hserve⟩, fun hopen hleft => absurd hopen hleft, id,
      fun _ => ⟨rfl, rfl⟩⟩, h⟩

/-- So it is for every turn of a service. -/
theorem serveAll_guarded (h : desk.Asks nonce) (frames : List Frame) {t : Turn}
    (ht : t ∈ desk.serveAll services clock frames) : t.Guarded services clock nonce := by
  induction frames generalizing desk with
  | nil => cases ht
  | cons frame frames ih =>
    obtain ⟨hguarded, hleft⟩ := serve_guarded clock hspares h frame
    rw [serveAll] at ht
    rcases List.mem_cons.mp ht with rfl | hrest
    · exact hguarded
    · split at hrest
      · cases hrest
      · exact ih hleft hrest

/-- The handshake stays open, or a packet of the service settles it; it is never opened again. -/
theorem leave_phase (h : desk.Asks nonce) (frames : List Frame) :
    (desk.session.phase ≠ .handshake →
        (desk.leave (desk.serveAll services clock frames)).session.phase ≠ .handshake) ∧
      (desk.session.phase = .handshake →
        (desk.leave (desk.serveAll services clock frames)).session.phase ≠ .handshake →
        ∃ t ∈ desk.serveAll services clock frames, t.before.session.phase = .handshake ∧
          t.before.Settles services clock nonce t.frame ∧
          t.after.session.phase = services.mode.phaseAfterHandshake) := by
  induction frames generalizing desk with
  | nil => exact ⟨id, fun hopen hleft => absurd hopen hleft⟩
  | cons frame frames ih =>
    obtain ⟨hguarded, hasks⟩ := serve_guarded clock hspares h frame
    have hbefore : (desk.serve services clock frame).before = desk := (desk.serve_frame frame).2
    have hphase := (desk.serve services clock frame).left_session.1
    have hadvances := hguarded.advances
    have hsettles := hguarded.settles
    rw [hbefore] at hadvances hsettles
    rw [serveAll]
    generalize desk.serve services clock frame = t at *
    -- what the first turn does, and what the turns after it do
    cases houtcome : t.outcome? with
    | some outcome =>
      dsimp only [leave]
      rw [hphase]
      refine ⟨hadvances, fun hopen hleft => ?_⟩
      exact ⟨t, List.mem_singleton_self t, hbefore ▸ hopen, hbefore ▸ hsettles hopen hleft⟩
    | none =>
      obtain ⟨hstays, hopens⟩ := ih hasks
      dsimp only [leave]
      refine ⟨fun hne => hstays (hphase ▸ hadvances hne), fun hopen hleft => ?_⟩
      by_cases hsettled : t.after.session.phase = .handshake
      · obtain ⟨u, hu, hsettles⟩ := hopens (hphase.trans hsettled) hleft
        exact ⟨u, List.mem_cons_of_mem t hu, hsettles⟩
      · exact ⟨t, List.mem_cons_self, hbefore ▸ hopen, hbefore ▸ hsettles hopen hsettled⟩

end

end Desk

/-! ## Runs -/

/-- The handshake comes first in the run of a connection that was opened with a nonce, when
`readings` readings had been taken from the clock. -/
structure Gated (services : Services) (clock : Clock) (nonce : UInt32) (readings : Nat)
    (opened : Connection) (events : List Event) : Prop where
  /-- The run begins in the handshake. -/
  opens : opened.session.phase = .handshake
  /-- No packet is dealt with before the handshake packet with the nonce is written. -/
  opening : runTurns clock opened events ≠ [] → ∃ now, clock readings = some now ∧
    services.registry.encode .outgoing (⟨nonce, now, 0⟩ : Handshake) = .ok opened.written
  /-- The turns serve packets one after another, beginning at the desk of the opened connection. -/
  turns_eq : runTurns clock opened events =
    opened.desk.serveAll services clock ((runTurns clock opened events).map (·.frame))
  /-- Nothing but the turns changes the session or dispatches a packet. -/
  desk_eq : (run clock opened events).desk = opened.desk.leave (runTurns clock opened events)
  /-- Every turn keeps to the handshake. -/
  guarded : ∀ t ∈ runTurns clock opened events, t.Guarded services clock nonce
  /-- The connection ends at a packet that is refused. -/
  refuses : ∀ t ∈ runTurns clock opened events,
    ¬(t.before.session.phase = .handshake ↔ t.frame.descriptor.key = Handshake.key) →
    (run clock opened events).outcome =
      some (.failed (.unexpectedPacket t.frame.descriptor.name t.before.session.phase))
  /-- The handshake is over only when a packet has settled it. -/
  settles : (run clock opened events).session.phase ≠ .handshake →
    ∃ t ∈ runTurns clock opened events, t.before.session.phase = .handshake ∧
      t.before.Settles services clock nonce t.frame ∧
      t.after.session.phase = services.mode.phaseAfterHandshake
  /-- Once over, it is over for good. -/
  stays : ∀ front back, events = front ++ back →
    (run clock opened front).session.phase ≠ .handshake →
    (run clock opened events).session.phase ≠ .handshake

section

variable {services : Services} (clock : Clock) {nonce : UInt32} {readings : Nat}
  {opened : Connection}

/-- A connection that could not be opened deals with nothing. -/
theorem gated_of_ended (hended : opened.hasEnded = true) (hphase : opened.session.phase = .handshake)
    (events : List Event) : Gated services clock nonce readings opened events := by
  have hrun := run_of_ended clock hended
  obtain ⟨hlast, hturns⟩ := hrun events
  refine ⟨hphase, fun hne => absurd hturns hne, ?_, ?_, fun t ht => ?_, fun t ht => ?_, ?_,
    fun front _ _ hfront => ?_⟩
  · rw [hturns]
    rfl
  · rw [hturns, hlast]
    rfl
  · rw [hturns] at ht
    cases ht
  · rw [hturns] at ht
    cases ht
  · rw [hlast]
    exact fun hne => absurd hphase hne
  · rw [(hrun front).1] at hfront
    exact absurd hphase hfront

/-- A connection that waits for the reply to its handshake keeps to it. -/
theorem gated_of_asks (hservices : opened.services = services) (hsound : services.registry.Sound)
    (hspares : services.dispatcher.Spares .session)
    (hopen : opened.desk.Asks nonce) (hphase : opened.session.phase = .handshake) {now : UInt32}
    (hclock : clock readings = some now)
    (hencode : services.registry.encode .outgoing (⟨nonce, now, 0⟩ : Handshake) =
      .ok opened.written)
    (events : List Event) : Gated services clock nonce readings opened events := by
  subst hservices
  obtain ⟨-, hturns, hdesk, houtcome⟩ := run_serves clock hsound events
  have hphases := Desk.leave_phase clock hspares hopen
    ((runTurns clock opened events).map (·.frame))
  rw [← hturns, ← hdesk] at hphases
  refine ⟨hphase, fun _ => ⟨now, hclock, hencode⟩, hturns, hdesk, fun t ht => ?_, fun t ht hne => ?_,
    hphases.2 hphase, ?_⟩
  · rw [hturns] at ht
    exact Desk.serveAll_guarded clock hspares hopen _ ht
  · rw [hturns] at ht
    obtain ⟨-, hstop⟩ := (Desk.serveAll_guarded clock hspares hopen _ ht).refuses hne
    have hends : t.outcome? = some
        (.failed (.unexpectedPacket t.frame.descriptor.name t.before.session.phase)) := by
      rw [Turn.outcome?, hstop]
    have hlast := Desk.outcomeOf_of_mem ht hends
    rw [← hturns] at hlast
    exact (houtcome hlast).resolve_right fun hfinished => by simp at hfinished
  · rintro front back rfl hfront
    have hservices := (run_serves clock hsound front).services_eq
    obtain ⟨-, hrest, hleft, -⟩ := run_serves clock (c := run clock opened front)
      (hservices ▸ hsound) back
    have hasks : (run clock opened front).desk.Asks nonce := fun hback => absurd hback hfront
    have hspares : (run clock opened front).services.dispatcher.Spares .session :=
      hservices ▸ hspares
    have hstays := (Desk.leave_phase clock hspares hasks
      ((runTurns clock (run clock opened front) back).map (·.frame))).1 hfront
    rw [← hrest, ← hleft] at hstays
    rwa [run, List.foldl_append]

/-- Whatever the peer sends, whatever its clock shows, wherever its writes fail and whatever the
handlers do but to put another session in place of theirs, a connection keeps to its handshake: no
handler runs while it is open, only a reply with its nonce and a clock that agrees settles it, and
packets out of place end the connection. -/
theorem handshake_gate (hregistry : services.registry.Made)
    (hspares : services.dispatcher.Spares .session) (id : SessionId) (peer : Option SocketAddress)
    (nonce : UInt32) (metrics : Metrics) (readings : Nat) (writeFault : Option WriteFault)
    (events : List Event) :
    Gated services clock nonce readings
      (start services id peer nonce clock metrics readings writeFault) events := by
  cases hclock : clock readings with
  | none =>
    obtain ⟨hended, -, hphase⟩ := start_of_none id peer nonce metrics writeFault hclock
    exact gated_of_ended clock (hasEnded_of_outcome hended) hphase events
  | some now =>
    cases hencode : services.registry.encode .outgoing (⟨nonce, now, 0⟩ : Handshake) with
    | error fault =>
      obtain ⟨hended, -, -, hphase, -⟩ := start_of_error id peer metrics writeFault hclock hencode
      exact gated_of_ended clock (hasEnded_of_outcome hended) hphase events
    | ok opening =>
      cases hwrite : (deliver writeFault [opening]).error with
      | some error =>
        rw [start_of_unwritten id peer metrics writeFault hclock hencode hwrite]
        exact gated_of_ended clock rfl rfl events
      | none =>
        rw [start_of_written id peer metrics writeFault hclock hencode hwrite]
        refine gated_of_asks clock ?_ hregistry.sound hspares (fun _ => ⟨rfl, rfl⟩) ?_ hclock
          hencode events
        · rfl
        · rfl

/-- A peer that sends the opening packet back is let in, and not a second time. -/
theorem handshake_gate_echo : ∃ services : Services, services.registry.Made ∧
    services.dispatcher.Spares .session ∧
    let opened := start services ⟨1⟩ none 7 (.constant 100) {} 0
    let events := [.bytes opened.written, .bytes opened.written]
    (run (.constant 100) opened (events.take 1)).session.phase = .login ∧
      (run (.constant 100) opened events).outcome =
        some (.failed (.unexpectedPacket "Handshake" .login)) ∧
      Gated services (.constant 100) 7 0 opened events := by
  have hmade : Registry.base.Made := .inr ⟨.empty, [], Registry.build_nil .empty⟩
  have hspares : (⟨[]⟩ : Dispatcher).Spares .session := Dispatcher.spares_empty .session
  refine ⟨{ registry := .base }, hmade, hspares, ?_, ?_,
    handshake_gate _ hmade hspares ⟨1⟩ none 7 {} 0 none _⟩
  · decide +kernel
  · decide +kernel

end

end Connection

end PacketWire
