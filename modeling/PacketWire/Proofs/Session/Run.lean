import Mathlib.Data.List.Chain
import PacketWire.Proofs.Packet.Registry
import PacketWire.Session

/-!
# Runs of a session

A session is asked to queue packets, to move on to a phase, to end, and to hand over its queue, in
any order. Its registry is one that was built, so it can announce every phase, whatever packets were
registered besides.

* `setPhase_cases`: a phase change does nothing, or moves and announces, or is refused.
* `Step.sound`: what a single operation may do.
* `run_sound`: so every run goes forward through the phases, keeps its state across failures, and
  hands over the packets that were queued in their order.
-/

namespace PacketWire

/-! ## Phases -/

namespace Phase

/-- Nothing leads back into the handshake. -/
theorem canAdvanceTo_handshake (phase : Phase) : phase.canAdvanceTo .handshake = false := by
  cases phase <;> rfl

theorem canAdvanceTo_of_auth (next : Phase) : auth.canAdvanceTo next = false := by
  cases next <;> rfl

/-- Authentication is entered from the handshake; every other move leads to a higher number. -/
theorem code_lt_of_canAdvanceTo {current next : Phase} (h : current.canAdvanceTo next = true) :
    current = .handshake ∧ next = .auth ∨ next ≠ .auth ∧ current.code < next.code := by
  cases current <;> cases next <;> revert h <;> decide

/-- Phases that are entered one after another: upwards through the game phases, or from the
handshake to authentication, where they end. -/
def Forward (visited : List Phase) : Prop :=
  visited.Pairwise (·.code < ·.code) ∧ .auth ∉ visited ∨ visited = [.handshake, .auth]

theorem forward_of_isChain {phase : Phase} {later : List Phase} (hphase : phase ≠ .auth)
    (h : (phase :: later).IsChain (·.canAdvanceTo · = true)) :
    Forward (phase :: later) := by
  induction later generalizing phase with
  | nil => exact .inl ⟨List.pairwise_singleton _ _, by simpa using hphase.symm⟩
  | cons next later ih =>
    obtain ⟨hadvance, hrest⟩ := List.isChain_cons_cons.mp h
    rcases code_lt_of_canAdvanceTo hadvance with ⟨rfl, rfl⟩ | ⟨hnext, hlt⟩
    · cases later with
      | nil => exact .inr rfl
      | cons third later =>
        have hthird := (List.isChain_cons_cons.mp hrest).1
        rw [canAdvanceTo_of_auth] at hthird
        cases hthird
    · rcases ih hnext hrest with ⟨hup, hauth⟩ | hback
      · refine .inl ⟨List.pairwise_cons.mpr ⟨?_, hup⟩, ?_⟩
        · intro other hother
          rcases List.mem_cons.mp hother with rfl | hlater
          · exact hlt
          · exact UInt8.lt_trans hlt ((List.pairwise_cons.mp hup).1 other hlater)
        · rw [List.mem_cons, not_or]
          exact ⟨hphase.symm, hauth⟩
      · cases hback
        rw [canAdvanceTo_handshake] at hadvance
        cases hadvance

end Phase

namespace Session

/-! ## Operations -/

/-- What a session can be asked to do. -/
inductive Op : Type 1 where
  | send {α : Type} [TypedPacket α] (packet : α)
  | sendRecord (key : Key) (record : Record)
  | setPhase (next : Phase)
  | close
  | drain

/-- An operation: the session before it, its result, the packets it hands over, and the session
after it. -/
structure Step where
  before : Session
  op : Op
  result : Except ProtocolError Unit
  drained : List Bytes
  after : Session

/-- A session carries out an operation. -/
def step (session : Session) (op : Op) : Step :=
  match op with
  | @Op.send _ _ packet => ⟨session, op, (session.send packet).1, [], (session.send packet).2⟩
  | .sendRecord key record =>
    ⟨session, op, (session.sendRecord key record).1, [], (session.sendRecord key record).2⟩
  | .setPhase next => ⟨session, op, (session.setPhase next).1, [], (session.setPhase next).2⟩
  | .close => ⟨session, op, .ok (), [], session.close⟩
  | .drain => ⟨session, op, .ok (), session.drain.1, session.drain.2⟩

/-- A session carries out some operations, one after another. -/
def steps (session : Session) : List Op → List Step
  | [] => []
  | op :: ops => session.step op :: (session.step op).after.steps ops

/-- The session after some operations. -/
def run (session : Session) (ops : List Op) : Session :=
  ops.foldl (fun session op => (session.step op).after) session

/-- The packet that announces a phase. -/
def announcement (phase : Phase) : Bytes := [0xFD, phase.code]

/-- The packets that a successful operation puts into the queue. -/
def Step.queued (step : Step) : List Bytes :=
  match step.op, step.result with
  | @Op.send _ _ packet, .ok () => (step.before.registry.encode .outgoing packet).toOption.toList
  | .sendRecord key record, .ok () =>
    (step.before.registry.encodeRecord .outgoing key record).toOption.toList
  | .setPhase next, .ok () => if next = step.before.phase then [] else [announcement next]
  | _, _ => []

/-- The phase that an operation enters. -/
def Step.entered? (step : Step) : Option Phase :=
  if step.after.phase = step.before.phase then none else some step.after.phase

/-- The phases that a session goes through in some operations, the current one first. -/
def visited (session : Session) (ops : List Op) : List Phase :=
  session.phase :: (session.steps ops).filterMap Step.entered?

/-! ## One operation -/

/-- What an operation may do. -/
structure Step.Sound (step : Step) : Prop where
  registry : step.after.registry = step.before.registry
  /-- A failure changes nothing. -/
  atomic : ∀ fault, step.result = .error fault → step.after = step.before
  /-- What is handed over and what then waits is what waited before and what is queued. -/
  outbox : step.drained ++ step.after.outbox = step.before.outbox ++ step.queued
  /-- A phase is left for one that it leads to, with the announcement of that phase at the end of
  the queue. -/
  announced : step.after.phase ≠ step.before.phase →
    step.op = .setPhase step.after.phase ∧ step.result = .ok () ∧
      step.before.phase.canAdvanceTo step.after.phase = true ∧
      step.after.outbox = step.before.outbox ++ [announcement step.after.phase]
  /-- A phase change succeeds when the current phase leads to the other, and then moves there. -/
  moves : ∀ next, step.op = .setPhase next → next ≠ step.before.phase →
    (step.result = .ok () ↔ step.before.phase.canAdvanceTo next = true) ∧
      (step.result = .ok () → step.after.phase = next)
  /-- A change to the current phase succeeds and does nothing. -/
  stays : step.op = .setPhase step.before.phase → step.result = .ok () ∧ step.after = step.before
  closing : step.before.isClosing = true → step.after.isClosing = true

section

variable {session : Session}

/-- A packet is queued, or nothing happens. -/
theorem sendRecord_cases (session : Session) (key : Key) (record : Record) :
    (∃ bytes, session.registry.encodeRecord .outgoing key record = .ok bytes ∧
        session.sendRecord key record =
          (.ok (), { session with outbox := session.outbox ++ [bytes] })) ∨
      ∃ fault, session.sendRecord key record = (.error fault, session) := by
  unfold sendRecord
  cases session.registry.encodeRecord .outgoing key record with
  | ok bytes => exact .inl ⟨bytes, rfl, rfl⟩
  | error fault => exact .inr ⟨fault, rfl⟩

/-- A phase change does nothing, or moves and announces, or is refused. -/
theorem setPhase_cases (h : session.registry.Announces) (next : Phase) :
    next = session.phase ∧ session.setPhase next = (.ok (), session) ∨
      next ≠ session.phase ∧ session.phase.canAdvanceTo next = true ∧
        session.setPhase next =
          (.ok (), { session with
            phase := next
            outbox := session.outbox ++ [announcement next] }) ∨
      next ≠ session.phase ∧ session.phase.canAdvanceTo next = false ∧
        session.setPhase next = (.error (.phaseRegression session.phase next), session) := by
  by_cases hsame : next = session.phase
  · exact .inl ⟨hsame, if_pos hsame⟩
  · rw [setPhase, if_neg hsame]
    cases hadvance : session.phase.canAdvanceTo next with
    | true =>
      have hencode := h.encode ⟨next.code⟩
      unfold Registry.encode at hencode
      refine .inr (.inl ⟨hsame, rfl, ?_⟩)
      rw [if_pos rfl]
      unfold send sendRecord
      dsimp only
      rw [hencode]
      rfl
    | false => exact .inr (.inr ⟨hsame, rfl, if_neg (by simp)⟩)

/-- An operation that is no phase change moves no phase. -/
theorem Step.sound_of_phase_eq {step : Step} (hop : ∀ next, step.op ≠ .setPhase next)
    (hregistry : step.after.registry = step.before.registry)
    (hphase : step.after.phase = step.before.phase)
    (hatomic : ∀ fault, step.result = .error fault → step.after = step.before)
    (houtbox : step.drained ++ step.after.outbox = step.before.outbox ++ step.queued)
    (hclosing : step.before.isClosing = true → step.after.isClosing = true) : step.Sound where
  registry := hregistry
  atomic := hatomic
  outbox := houtbox
  announced := fun h => absurd hphase h
  moves := fun next h => absurd h (hop next)
  stays := fun h => absurd h (hop _)
  closing := hclosing

theorem step_sound_setPhase (h : session.registry.Announces) (next : Phase) :
    (session.step (.setPhase next)).Sound := by
  dsimp only [step]
  rcases setPhase_cases h next with ⟨rfl, hset⟩ | ⟨hne, hadvance, hset⟩ | ⟨hne, hstuck, hset⟩
  · rw [hset]
    refine ⟨rfl, by simp, by simp [Step.queued], fun h => absurd rfl h, ?_, fun _ => ⟨rfl, rfl⟩, (·)⟩
    rintro _ ⟨⟩ hne
    exact absurd rfl hne
  · rw [hset]
    refine ⟨rfl, by simp, by simp [Step.queued, hne], fun _ => ⟨rfl, rfl, hadvance, rfl⟩, ?_, ?_,
      (·)⟩
    · rintro _ ⟨⟩ -
      exact ⟨by simp [hadvance], fun _ => rfl⟩
    · exact fun hsame => absurd (Op.setPhase.inj hsame) hne
  · rw [hset]
    refine ⟨rfl, fun _ _ => rfl, by simp [Step.queued], fun h => absurd rfl h, ?_, ?_, (·)⟩
    · rintro _ ⟨⟩ -
      exact ⟨by simp [hstuck], by simp⟩
    · exact fun hsame => absurd (Op.setPhase.inj hsame) hne

/-- Every operation of a session that can announce its phases. -/
theorem step_sound (h : session.registry.Announces) (op : Op) : (session.step op).Sound := by
  cases op with
  | send packet =>
    dsimp only [step, send]
    rcases session.sendRecord_cases _ _ with ⟨bytes, hencode, hsend⟩ | ⟨fault, hsend⟩
    · rw [hsend]
      refine Step.sound_of_phase_eq (by simp) rfl rfl (by simp) ?_ (·)
      simp [Step.queued, Registry.encode, hencode, Except.toOption]
    · rw [hsend]
      exact Step.sound_of_phase_eq (by simp) rfl rfl (fun _ _ => rfl) (by simp [Step.queued]) (·)
  | sendRecord key record =>
    dsimp only [step]
    rcases session.sendRecord_cases key record with ⟨bytes, hencode, hsend⟩ | ⟨fault, hsend⟩
    · rw [hsend]
      refine Step.sound_of_phase_eq (by simp) rfl rfl (by simp) ?_ (·)
      simp [Step.queued, hencode, Except.toOption]
    · rw [hsend]
      exact Step.sound_of_phase_eq (by simp) rfl rfl (fun _ _ => rfl) (by simp [Step.queued]) (·)
  | setPhase next => exact step_sound_setPhase h next
  | close =>
    dsimp only [step, close]
    exact Step.sound_of_phase_eq (by simp) rfl rfl (by simp) (by simp [Step.queued]) (fun _ => rfl)
  | drain =>
    dsimp only [step, drain]
    exact Step.sound_of_phase_eq (by simp) rfl rfl (by simp) (by simp [Step.queued]) (·)

end

/-! ## Runs -/

section

variable {session : Session}

theorem run_cons (op : Op) (ops : List Op) :
    session.run (op :: ops) = (session.step op).after.run ops := rfl

theorem before_step (session : Session) (op : Op) : (session.step op).before = session := by
  cases op <;> rfl

theorem Announces.step (h : session.registry.Announces) (op : Op) :
    (session.step op).after.registry.Announces := by
  rw [(step_sound h op).registry, before_step]
  exact h

theorem steps_sound (h : session.registry.Announces) (ops : List Op) :
    ∀ step ∈ session.steps ops, step.Sound := by
  induction ops generalizing session with
  | nil =>
    intro step hstep
    cases hstep
  | cons op ops ih =>
    intro step hstep
    rcases List.mem_cons.mp hstep with rfl | hlater
    · exact step_sound h op
    · exact ih (Announces.step h op) step hlater

/-- Each phase that is visited leads to the next. -/
theorem isChain_visited (h : session.registry.Announces) (ops : List Op) :
    (session.visited ops).IsChain (·.canAdvanceTo · = true) := by
  induction ops generalizing session with
  | nil => exact .singleton _
  | cons op ops ih =>
    have hsound := step_sound h op
    have hrest := ih (Announces.step h op)
    unfold visited at hrest ⊢
    unfold steps
    by_cases hphase : (session.step op).after.phase = (session.step op).before.phase
    · have hentered : (session.step op).entered? = none := if_pos hphase
      rw [List.filterMap_cons_none hentered]
      rwa [hphase, before_step] at hrest
    · have hentered : (session.step op).entered? = some (session.step op).after.phase :=
        if_neg hphase
      rw [List.filterMap_cons_some hentered]
      obtain ⟨-, -, hadvance, -⟩ := hsound.announced hphase
      rw [before_step] at hadvance
      exact List.isChain_cons_cons.mpr ⟨hadvance, hrest⟩

/-- What was waiting, and then was queued, is handed over in that order, or waits still. -/
theorem drained_append_outbox (h : session.registry.Announces) (ops : List Op) :
    (session.steps ops).flatMap Step.drained ++ (session.run ops).outbox =
      session.outbox ++ (session.steps ops).flatMap Step.queued := by
  induction ops generalizing session with
  | nil => simp [steps, run]
  | cons op ops ih =>
    have houtbox := (step_sound h op).outbox
    rw [before_step] at houtbox
    rw [steps, run_cons, List.flatMap_cons, List.flatMap_cons, List.append_assoc,
      ih (Announces.step h op), ← List.append_assoc, houtbox, List.append_assoc]

/-- Every run of a fresh session over a registry that was built: an operation that fails changes
nothing, a phase change is announced, by one packet, or does not happen, and an end that is asked
for stays asked for. The phases go forward, and the packets that were handed over, with those that
still wait, are the packets that were queued, in their order. -/
theorem run_sound {table : TypeTable} {schemas : List PacketSchema} {registry : Registry}
    (hbuild : Registry.build table schemas = .ok registry) (id : SessionId)
    (peer : Option SocketAddress) (ops : List Op) :
    let fresh : Session := { id, peer, registry }
    (∀ step ∈ fresh.steps ops, step.Sound) ∧
      Phase.Forward (fresh.visited ops) ∧
      (fresh.steps ops).flatMap Step.drained ++ (fresh.run ops).outbox =
        (fresh.steps ops).flatMap Step.queued := by
  have hannounces := Registry.build_announces hbuild
  refine ⟨steps_sound hannounces ops, ?_, ?_⟩
  · exact Phase.forward_of_isChain nofun (isChain_visited hannounces ops)
  · exact drained_append_outbox hannounces ops

/-- Packets that ask for the headers of the handshake and of the phase change. -/
def reusedHeaders : List PacketSchema :=
  [{ name := "Shout", header := 0xFD, direction := .both,
      fields := [{ name := "volume", kind := .scalar .u32 }] },
    { name := "Whisper", header := 0xFD, subHeader := some 1, direction := .outgoing },
    { name := "Nod", header := 0xFF, direction := .outgoing }]

/-- The packets of the same headers displace no announcement, and the step back is refused. -/
theorem run_sound_reusedHeaders : ∃ registry, Registry.build .empty reusedHeaders = .ok registry ∧
    let fresh : Session := { id := ⟨1⟩, registry }
    let ops := [.setPhase .login, .drain, .setPhase .auth, .setPhase .game, .close]
    Phase.Forward (fresh.visited ops) ∧
      (fresh.steps ops).flatMap Step.queued = [[0xFD, 2], [0xFD, 5]] := by
  have hrun : (Registry.build .empty reusedHeaders).toOption.map (fun registry =>
      let fresh : Session := { id := ⟨1⟩, registry }
      let ops := [.setPhase .login, .drain, .setPhase .auth, .setPhase .game, .close]
      (fresh.steps ops).flatMap Step.drained ++ (fresh.run ops).outbox) =
        some [[0xFD, 2], [0xFD, 5]] := by
    decide +kernel
  obtain ⟨registry, hbuild, hpackets⟩ := Option.map_eq_some_iff.mp hrun
  obtain ⟨-, hforward, hqueued⟩ := run_sound (toOption_eq_some_iff.mp hbuild) ⟨1⟩ none
    [.setPhase .login, .drain, .setPhase .auth, .setPhase .game, .close]
  exact ⟨registry, toOption_eq_some_iff.mp hbuild, hforward, hqueued.symm.trans hpackets⟩

end

end Session

end PacketWire
