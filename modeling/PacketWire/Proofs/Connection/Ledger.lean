import PacketWire.Proofs.Connection.Gate

/-!
# What a turn counts

What a connection counts is decided by what it has done: the packets it has read, the packets it has
handed to its stream, the phase it has come to and how it ended. This is its *ledger*. Every fault
is counted once as a fault, and those of the handshake, of a handler and of an unknown header once
more as such. A fault that a handler raises is a fault of the handler, whatever its kind.

* `Metrics.ledger_balances`: what the ledger tells of a connection that has ended.
* `Desk.tallied`: what dealing with a packet may count.
* `Turn.Tallied.ledger_of_goesOn`, `ledger_of_fault`: so a turn keeps the counters at the ledger.
-/

namespace PacketWire

/-! ## What is counted -/

/-- What a fault is counted as, beside being a fault. -/
inductive Blame where
  | handshake
  | handler
  | header
  deriving DecidableEq

def ProtocolError.blame? : ProtocolError → Option Blame
  | .handshake _ | .timeout => some .handshake
  | .handlerFailed _ _ => some .handler
  | .unknownHeader _ | .unknownSubHeader _ _ => some .header
  | _ => none

/-- The fault that a connection ended by, if it did. -/
def Outcome.failure? : Outcome → Option ProtocolError
  | .failed fault => some fault
  | .finished | .aborted => none

/-- One where something holds, else zero. -/
def Metrics.one (p : Prop) [Decidable p] : UInt64 := if p then 1 else 0

/-- The counters of a connection that has come to a phase, has met a fault or none, has read some
packets and has handed some to its stream. -/
def Metrics.ledger (phase : Phase) (fault : Option ProtocolError) (frames : List Frame)
    (packets : List Bytes) : Metrics where
  handshakesTotal := 1
  handshakesSuccess := one (phase ≠ .handshake)
  handshakesFailed := one (fault.bind ProtocolError.blame? = some .handshake)
  packetsSent := .ofNat packets.length
  packetsReceived := .ofNat frames.length
  bytesSent := .ofNat (packets.map List.length).sum
  bytesReceived := .ofNat (frames.map (·.length)).sum
  unknownHeaders := one (fault.bind ProtocolError.blame? = some .header)
  protocolErrors := one (fault.isSome = true)
  handlerFailures := one (fault.bind ProtocolError.blame? = some .handler)

namespace Metrics

variable {phase other : Phase} {fault : ProtocolError} {frames : List Frame} {packets : List Bytes}

/-- Of the phase it only matters whether the handshake is over. -/
theorem ledger_congr (h : phase = .handshake ↔ other = .handshake) (fault : Option ProtocolError) :
    ledger phase fault frames packets = ledger other fault frames packets := by
  simp only [ledger, one, ne_eq, h]

theorem packetReceived_ledger (frame : Frame) :
    (ledger phase none frames packets).packetReceived (.ofNat frame.length) =
      ledger phase none (frames ++ [frame]) packets := by
  simp [ledger, packetReceived]

theorem packetsHanded_ledger (more : List Bytes) :
    (ledger phase none frames packets).packetsHanded more =
      ledger phase none frames (packets ++ more) := by
  induction more generalizing packets with
  | nil => rw [List.append_nil]; rfl
  | cons packet more ih =>
    have hone : (ledger phase none frames packets).packetSent (.ofNat packet.length) =
        ledger phase none frames (packets ++ [packet]) := by
      simp [ledger, packetSent]
    rw [packetsHanded, List.foldl_cons, hone, ← packetsHanded, ih, List.append_assoc]
    rfl

theorem handshakeSuccess_ledger (hphase : phase = .handshake) (hother : other ≠ .handshake) :
    (ledger phase none frames packets).handshakeSuccess = ledger other none frames packets := by
  subst hphase
  simp [ledger, one, handshakeSuccess, hother]

/-- A fault of no particular kind. -/
theorem protocolError_ledger (h : fault.blame? = none) :
    (ledger phase none frames packets).protocolError =
      ledger phase (some fault) frames packets := by
  simp [ledger, one, protocolError, h]

theorem handshakeFailed_ledger (h : fault.blame? = some .handshake) :
    (ledger phase none frames packets).handshakeFailed.protocolError =
      ledger phase (some fault) frames packets := by
  simp [ledger, one, protocolError, handshakeFailed, h]

theorem handlerFailure_ledger (h : fault.blame? = some .handler) :
    (ledger phase none frames packets).handlerFailure.protocolError =
      ledger phase (some fault) frames packets := by
  simp [ledger, one, protocolError, handlerFailure, h]

/-- A fault of the reader, which is none of the handshake and none of a handler. -/
theorem readFailed_ledger (hhandshake : fault.blame? ≠ some .handshake)
    (hhandler : fault.blame? ≠ some .handler) :
    ((ledger phase none frames packets).readFailed fault).protocolError =
      ledger phase (some fault) frames packets := by
  cases fault <;>
    simp_all [ledger, one, protocolError, readFailed, unknownHeader, ProtocolError.blame?]

theorem one_eq_one_iff {p : Prop} [Decidable p] : one p = 1 ↔ p := by
  unfold one
  split <;> simpa

theorem one_le_one (p : Prop) [Decidable p] : one p ≤ 1 := by
  unfold one
  split <;> decide

/-- The counters of a connection that has ended in a phase, and that has read some packets and
handed some to its stream. -/
structure Balances (metrics : Metrics) (phase : Phase) (outcome : Outcome) (frames : List Frame)
    (packets : List Bytes) : Prop where
  opened : metrics.handshakesTotal = 1
  decided : metrics.handshakesSuccess.toNat + metrics.handshakesFailed.toNat ≤ 1
  settled : metrics.handshakesSuccess = 1 ↔ phase ≠ .handshake
  refused : metrics.handshakesFailed = 1 ↔
    outcome = .failed .timeout ∨ ∃ fault, outcome = .failed (.handshake fault)
  received : metrics.packetsReceived = .ofNat frames.length ∧
    metrics.bytesReceived = .ofNat (frames.map (·.length)).sum
  sent : metrics.packetsSent = .ofNat packets.length ∧
    metrics.bytesSent = .ofNat (packets.map List.length).sum
  failed : metrics.protocolErrors = 1 ↔ ∃ fault, outcome = .failed fault
  unhandled : metrics.handlerFailures = 1 ↔
    ∃ packet reason, outcome = .failed (.handlerFailed packet reason)
  unknown : metrics.unknownHeaders = 1 ↔ (∃ header, outcome = .failed (.unknownHeader header)) ∨
    ∃ header sub, outcome = .failed (.unknownSubHeader header sub)
  /-- Nothing is counted twice. -/
  once : metrics.protocolErrors ≤ 1 ∧ metrics.handlerFailures ≤ 1 ∧ metrics.unknownHeaders ≤ 1

/-- The ledger tells how a connection ended, if only an open handshake fails. -/
theorem ledger_balances {outcome : Outcome}
    (hrefused : outcome.failure?.bind ProtocolError.blame? = some .handshake →
      phase = .handshake) :
    (ledger phase outcome.failure? frames packets).Balances phase outcome frames packets where
  opened := rfl
  decided := by
    dsimp only [ledger]
    by_cases hblame : outcome.failure?.bind ProtocolError.blame? = some .handshake
    · have hphase := hrefused hblame
      simp [one, hblame, hphase]
    · rw [one, one, if_neg hblame]
      split <;> decide
  settled := one_eq_one_iff
  refused := one_eq_one_iff.trans (by
    cases outcome with
    | finished | aborted => simp [Outcome.failure?]
    | failed fault => cases fault <;> simp [Outcome.failure?, ProtocolError.blame?])
  received := ⟨rfl, rfl⟩
  sent := ⟨rfl, rfl⟩
  failed := one_eq_one_iff.trans (by cases outcome <;> simp [Outcome.failure?])
  unhandled := one_eq_one_iff.trans (by
    cases outcome with
    | finished | aborted => simp [Outcome.failure?]
    | failed fault => cases fault <;> simp [Outcome.failure?, ProtocolError.blame?])
  unknown := one_eq_one_iff.trans (by
    cases outcome with
    | finished | aborted => simp [Outcome.failure?]
    | failed fault => cases fault <;> simp [Outcome.failure?, ProtocolError.blame?])
  once := ⟨one_le_one _, one_le_one _, one_le_one _⟩

end Metrics

/-! ## Faults of the reader and of the writer -/

theorem FrameReader.resolve_blame? {reader : FrameReader} {buf : Bytes} {fault : ProtocolError}
    (h : reader.resolve buf = .error fault) : fault.blame? = some .header := by
  cases buf with
  | nil => cases h
  | cons header rest =>
    rw [resolve_cons] at h
    split at h
    · cases h
      rfl
    · split at h
      · split at h
        · cases h
        · split at h <;> cases h
          rfl
      · cases h

/-- The reader blames a header, or nothing in particular. -/
theorem FrameReader.next_blame? {reader : FrameReader} {buf : Bytes} {fault : ProtocolError}
    (h : reader.next buf = .error fault) :
    fault.blame? ≠ some .handshake ∧ fault.blame? ≠ some .handler := by
  cases hresolve : reader.resolve buf with
  | error first =>
    rw [next_of_unknown hresolve] at h
    cases h
    rw [resolve_blame? hresolve]
    exact ⟨by simp, by simp⟩
  | ok selected =>
    cases selected with
    | none =>
      rw [next_of_unresolved hresolve] at h
      cases h
    | some d =>
      rw [next_of_resolve hresolve] at h
      have hnone : fault.blame? = none := by
        split at h
        · cases h
          rfl
        · split at h <;> cases h
          rfl
        · split at h
          · cases h
            rfl
          · split at h
            · cases h
            · split at h <;> cases h
              rfl
      rw [hnone]
      exact ⟨by simp, by simp⟩

theorem Connection.Work.blame?_peerGone (fault : StreamError) :
    (peerGone fault).blame? = none := by
  cases fault <;> rfl

/-! ## Services that can settle a handshake -/

namespace Session

variable (session : Session)

/-- A reply that is refused is a fault of the handshake, and nothing but the handshake changes. -/
theorem verifyHandshake_cases (reply : Handshake) (now : UInt32) (settings : HandshakeSettings) :
    ∃ handshake, (∃ fault, session.verifyHandshake reply now settings =
        (.error (.handshake fault), { session with handshake })) ∨
      ∃ outcome, session.verifyHandshake reply now settings =
        (.ok outcome, { session with handshake }) := by
  unfold verifyHandshake
  split
  · exact ⟨_, .inr ⟨_, rfl⟩⟩
  · exact ⟨_, .inl ⟨_, rfl⟩⟩

end Session

/-- Services that can open a handshake and settle it, whose packets are of a size that can be, and
whose handlers leave the session in its place. -/
structure Services.Ready (services : Services) : Prop where
  sound : services.registry.Sound
  greets : services.registry.Greets
  announces : services.registry.Announces
  limit : services.maxFrameSize < Size.limit
  spares : services.dispatcher.Spares .session

theorem Services.ready_of_build {services : Services} {table : TypeTable}
    {schemas : List PacketSchema} (h : Registry.build table schemas = .ok services.registry)
    (hlimit : services.maxFrameSize < Size.limit)
    (hspares : services.dispatcher.Spares .session) : services.Ready where
  sound := Registry.build_sound h
  greets := Registry.build_greets h
  announces := Registry.build_announces h
  limit := hlimit
  spares := hspares

namespace Connection

/-! ## Turns -/

/-- What a turn may count, beside the packet that came in and those that are handed over: nothing,
or that the handshake is settled, or the fault of the handshake or of a handler that stopped it. -/
inductive Turn.Tallied (t : Turn) (metrics : Metrics) : Metrics → Prop
  | nothing : (t.after.session.phase = .handshake ↔ t.before.session.phase = .handshake) →
      (∀ fault, t.stop = some (.fault fault) → fault.blame? = none) → Tallied t metrics metrics
  | settled : t.before.session.phase = .handshake → t.after.session.phase ≠ .handshake →
      t.stop = none → Tallied t metrics metrics.handshakeSuccess
  | refused {fault : HandshakeError} : t.before.session.phase = .handshake →
      t.after.session.phase = .handshake → t.stop = some (.fault (.handshake fault)) →
      Tallied t metrics metrics.handshakeFailed
  | unhandled {packet reason : String} : t.before.session.phase ≠ .handshake →
      t.after.session.phase ≠ .handshake → t.stop = some (.fault (.handlerFailed packet reason)) →
      Tallied t metrics metrics.handlerFailure

namespace Desk

variable {services : Services} {clock : Clock} {desk : Desk} {frame : Frame}

theorem tally_unexpected
    (h : ¬(desk.session.phase = .handshake ↔ frame.descriptor.key = Handshake.key))
    (metrics : Metrics) : desk.tally services clock frame metrics = metrics := by
  unfold tally
  rw [Work.run_handle]
  by_cases hphase : desk.session.phase = .handshake
  · have hkey : ¬frame.descriptor.key = Handshake.key := fun hkey => h (iff_of_true hphase hkey)
    rw [if_pos (by exact hphase), if_neg hkey]
  · have hkey : frame.descriptor.key = Handshake.key :=
      Decidable.byContradiction fun hkey => h (iff_of_false hphase hkey)
    rw [if_neg (by exact hphase), if_pos hkey]

theorem tally_dispatch (hphase : desk.session.phase ≠ .handshake)
    (hkey : frame.descriptor.key ≠ Handshake.key) (metrics : Metrics) :
    desk.tally services clock frame metrics =
      match (services.dispatcher.dispatch desk.dispatched
        ⟨frame.record, frame.descriptor, desk.session⟩).1 with
      | .ok () => metrics
      | .error _ => metrics.handlerFailure := by
  unfold tally
  rw [Work.run_handle, if_neg (by exact hphase), if_neg hkey, Work.run_dispatch]
  simp only [connection]
  rcases services.dispatcher.dispatch desk.dispatched
    ⟨frame.record, frame.descriptor, desk.session⟩ with ⟨result, ctx⟩
  cases result <;> rfl

theorem tally_reply (hphase : desk.session.phase = .handshake)
    (hkey : frame.descriptor.key = Handshake.key) (metrics : Metrics) :
    desk.tally services clock frame metrics =
      match Handshake.ofRecord frame.record with
      | .error _ => metrics
      | .ok reply =>
        match (Work.answer reply clock).run { desk.connection services with metrics } with
        | .ok () c | .error _ c => c.metrics := by
  unfold tally
  rw [Work.run_handle, if_pos (by exact hphase), if_pos hkey]
  cases Handshake.ofRecord frame.record <;> rfl

section

variable (hgreets : desk.session.registry.Greets) (hannounces : desk.session.registry.Announces)
include hgreets hannounces

/-- A reply to the handshake counts its outcome. No answer to it fails to be sent. -/
theorem tallied_reply (hphase : desk.session.phase = .handshake)
    (hkey : frame.descriptor.key = Handshake.key) (metrics : Metrics) :
    (desk.serve services clock frame).Tallied metrics
      (desk.tally services clock frame metrics) ∧
      (desk.serve services clock frame).after.session.registry = desk.session.registry := by
  rw [tally_reply hphase hkey]
  cases hreply : Handshake.ofRecord frame.record with
  | error fault =>
    rw [serve_malformed hphase hkey hreply]
    refine ⟨.nothing Iff.rfl fun other hother => ?_, rfl⟩
    cases hother
    rfl
  | ok reply =>
    rw [serve_reply hphase hkey hreply]
    dsimp only
    rw [Work.run_answer]
    simp only [connection]
    cases hclock : clock desk.readings with
    | none => exact ⟨.nothing Iff.rfl fun other hother => (by cases hother), rfl⟩
    | some now =>
      dsimp only
      obtain ⟨handshake, ⟨fault, hverify⟩ | ⟨outcome, hverify⟩⟩ :=
        desk.session.verifyHandshake_cases reply now services.handshake
      · rw [hverify]
        exact ⟨.refused hphase hphase rfl, rfl⟩
      · rw [hverify]
        cases outcome with
        | complete =>
          dsimp only
          obtain ⟨hne, hadvance⟩ := services.mode.phaseAfterHandshake_ne
          have hverified : ({ desk.session with handshake } : Session).registry.Announces :=
            hannounces
          rcases Session.setPhase_cases hverified services.mode.phaseAfterHandshake with
            ⟨hsame, -⟩ | ⟨-, -, hset⟩ | ⟨-, hstuck, -⟩
          · exact absurd (hsame.trans hphase) hne
          · rw [Work.run_onSession, hset]
            exact ⟨.settled hphase hne rfl, rfl⟩
          · rw [hphase, hadvance] at hstuck
            cases hstuck
        | retry question =>
          dsimp only
          rw [Work.run_onSession, Session.send, Session.sendRecord]
          dsimp only
          rw [show desk.session.registry.encodeRecord .outgoing _ _ = .ok _ from
            hgreets.encode question]
          exact ⟨.nothing Iff.rfl fun other hother => (by cases hother), rfl⟩

variable (clock) in
/-- What dealing with a packet may count. -/
theorem tallied (hspares : services.dispatcher.Spares .session) (frame : Frame) (metrics : Metrics) :
    (desk.serve services clock frame).Tallied metrics
      (desk.tally services clock frame metrics) ∧
      (desk.serve services clock frame).after.session.registry = desk.session.registry := by
  by_cases hexpected : desk.session.phase = .handshake ↔ frame.descriptor.key = Handshake.key
  · by_cases hphase : desk.session.phase = .handshake
    · exact tallied_reply hgreets hannounces hphase (hexpected.mp hphase) metrics
    · have hkey : frame.descriptor.key ≠ Handshake.key := fun hkey => hphase (hexpected.mpr hkey)
      have hbefore : (⟨frame.record, frame.descriptor, desk.session⟩ : Context).session.phase ≠
          .handshake := hphase
      have hafter := Dispatcher.dispatch_kept Session.kept_phase hspares desk.dispatched hbefore
      have hown : (⟨frame.record, frame.descriptor, desk.session⟩ : Context).session.registry =
          desk.session.registry := rfl
      have hregistry := Dispatcher.dispatch_kept (Session.kept_registry _) hspares
        desk.dispatched hown
      rw [tally_dispatch hphase hkey, serve_dispatch hphase hkey]
      dsimp only
      refine ⟨?_, hregistry⟩
      rcases services.dispatcher.dispatch_cases desk.dispatched
        ⟨frame.record, frame.descriptor, desk.session⟩ with hok | ⟨packet, reason, hfault⟩
      · rw [hok]
        exact .nothing (iff_of_false hafter hphase) fun other hother => (by cases hother)
      · rw [hfault]
        exact .unhandled hphase hafter rfl
  · rw [tally_unexpected hexpected, serve_unexpected hexpected]
    refine ⟨.nothing Iff.rfl fun other hother => ?_, rfl⟩
    cases hother
    rfl

end

end Desk

namespace Turn.Tallied

variable {t : Turn} {frames : List Frame} {packets : List Bytes} {metrics : Metrics}
  (h : t.Tallied (.ledger t.before.session.phase none frames packets) metrics)
include h

/-- A turn that meets no fault leaves the counters at the ledger. -/
theorem ledger_of_goesOn (hstop : ∀ fault, t.stop ≠ some (.fault fault)) :
    metrics = .ledger t.after.session.phase none frames packets := by
  cases h with
  | nothing hphase => exact Metrics.ledger_congr hphase.symm none
  | settled hbefore hafter => exact Metrics.handshakeSuccess_ledger hbefore hafter
  | refused _ _ hrefused => exact absurd hrefused (hstop _)
  | unhandled _ _ hunhandled => exact absurd hunhandled (hstop _)

/-- So does one that is stopped by a fault, once the fault is counted. -/
theorem ledger_of_fault {fault : ProtocolError} (hstop : t.stop = some (.fault fault)) :
    metrics.protocolError = .ledger t.after.session.phase (some fault) frames packets ∧
      (fault.blame? = some .handshake → t.after.session.phase = .handshake) := by
  cases h with
  | nothing hphase hnone =>
    have hblame := hnone fault hstop
    rw [Metrics.protocolError_ledger hblame, hblame]
    exact ⟨Metrics.ledger_congr hphase.symm _, by simp⟩
  | settled _ _ hgoes =>
    rw [hgoes] at hstop
    cases hstop
  | @refused fault hbefore hafter hrefused =>
    rw [hrefused] at hstop
    cases hstop
    have hblame : (ProtocolError.handshake fault).blame? = some .handshake := rfl
    rw [Metrics.handshakeFailed_ledger hblame, hbefore, hafter]
    exact ⟨rfl, fun _ => rfl⟩
  | @unhandled packet reason hbefore hafter hunhandled =>
    rw [hunhandled] at hstop
    cases hstop
    have hblame : (ProtocolError.handlerFailed packet reason).blame? = some .handler := rfl
    rw [Metrics.handlerFailure_ledger hblame]
    exact ⟨Metrics.ledger_congr (iff_of_false hbefore hafter) _, by simp [ProtocolError.blame?]⟩

end Turn.Tallied

end Connection

end PacketWire
