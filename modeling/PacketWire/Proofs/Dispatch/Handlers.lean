import PacketWire.Dispatch.Dispatcher
import PacketWire.Proofs.Session.Run

/-!
# What a handler does to its session

A handler holds the whole session. What it cannot undo with the operations of its context it can
undo by taking the queue or by putting another session in place of its own, so what is known of a
session after a handler depends on what the handler leaves alone.

* `Script.Spares`: a script that leaves the session in its place, or the queue as well. Scripts made
  of the operations of a context do both (`Spares.bind`, `spares_sendRecord` and its like).
* `Script.run_kept`: what every operation on a session keeps, a script that leaves the session in
  its place keeps, by induction on the script.
* `Script.run_queued`: the queue grows by what the script queues, if it leaves the queue alone.
-/

namespace PacketWire

/-! ## Operations on a session -/

namespace Session

variable (session : Session)

/-- Queueing a packet changes the queue alone. -/
theorem sendRecord_eq (key : Key) (record : Record) :
    ∃ outbox, session.outbox <+: outbox ∧
      (session.sendRecord key record).2 = { session with outbox } := by
  unfold sendRecord
  split
  · exact ⟨_, List.prefix_append _ _, rfl⟩
  · exact ⟨session.outbox, List.prefix_rfl, rfl⟩

theorem phase_sendRecord (key : Key) (record : Record) :
    (session.sendRecord key record).2.phase = session.phase := by
  obtain ⟨outbox, -, hsend⟩ := session.sendRecord_eq key record
  rw [hsend]

/-- A phase change that leads on changes the phase and the queue alone; any other changes
nothing. -/
theorem setPhase_eq (next : Phase) :
    (session.setPhase next).2 = session ∨
      session.phase.canAdvanceTo next = true ∧ ∃ outbox, session.outbox <+: outbox ∧
        (session.setPhase next).2 = { session with phase := next, outbox } := by
  unfold setPhase
  split
  · exact .inl rfl
  · split
    · next hadvance =>
      obtain ⟨outbox, hqueue, hsend⟩ := { session with phase := next }.sendRecord_eq
        (TypedPacket.key PhaseChange) (RecordForm.toRecord (PhaseChange.mk next.code))
      exact .inr ⟨hadvance, outbox, hqueue, hsend⟩
    · exact .inl rfl

theorem phase_setPhase_of_canAdvanceTo {next : Phase} (hne : next ≠ session.phase)
    (h : session.phase.canAdvanceTo next = true) : (session.setPhase next).2.phase = next := by
  unfold setPhase
  rw [if_neg hne, if_pos h]
  exact phase_sendRecord _ _ _

/-- A property that a session keeps, whatever is done to it. -/
structure Kept (P : Session → Prop) : Prop where
  sendRecord : ∀ session key record, P session → P (session.sendRecord key record).2
  setPhase : ∀ session next, P session → P (session.setPhase next).2
  close : ∀ session, P session → P session.close
  drain : ∀ session, P session → P session.drain.2
  onHandshake : ∀ session change, P session → P (session.onHandshake change)

theorem kept_registry (registry : Registry) : Kept (·.registry = registry) where
  sendRecord := by
    intro session key record h
    obtain ⟨outbox, -, hsend⟩ := session.sendRecord_eq key record
    rw [hsend]
    exact h
  setPhase := by
    intro session next h
    rcases session.setPhase_eq next with hsame | ⟨-, outbox, -, hnext⟩
    · rw [hsame]
      exact h
    · rw [hnext]
      exact h
  close := fun _ h => h
  drain := fun _ h => h
  onHandshake := fun _ _ h => h

/-- Nothing moves a session back into the handshake. -/
theorem kept_phase : Kept (·.phase ≠ .handshake) where
  sendRecord := by
    intro session key record h
    rwa [phase_sendRecord]
  setPhase := by
    intro session next h
    rcases session.setPhase_eq next with hsame | ⟨hadvance, outbox, -, hnext⟩
    · rwa [hsame]
    · rw [hnext]
      rintro rfl
      rw [Phase.canAdvanceTo_handshake] at hadvance
      cases hadvance
  close := fun _ h => h
  drain := fun _ h => h
  onHandshake := fun _ _ h => h

/-- The packets that have been put into the queue of a session since it was `before`. -/
def queuedSince (before after : Session) : List Bytes := after.outbox.drop before.outbox.length

theorem outbox_eq {before after : Session} (h : before.outbox <+: after.outbox) :
    after.outbox = before.outbox ++ queuedSince before after := by
  obtain ⟨more, hmore⟩ := h
  rw [queuedSince, ← hmore, List.drop_left]

theorem prefix_sendRecord (key : Key) (record : Record) :
    session.outbox <+: (session.sendRecord key record).2.outbox := by
  obtain ⟨outbox, hqueue, hsend⟩ := session.sendRecord_eq key record
  rwa [hsend]

theorem prefix_setPhase (next : Phase) :
    session.outbox <+: (session.setPhase next).2.outbox := by
  rcases session.setPhase_eq next with hsame | ⟨-, outbox, hqueue, hnext⟩
  · exact hsame.symm ▸ List.prefix_rfl
  · rwa [hnext]

end Session

/-! ## Scripts -/

/-- What of a session a handler can leave alone. -/
inductive Session.Part where
  | session
  /-- The packets that wait to be written. -/
  | queue
  deriving DecidableEq

namespace Script

variable {α : Type}

/-- A script that leaves the session in its place, or the queue with it, whatever its operations
result in. -/
def Spares (part : Session.Part) : Script α → Prop
  | done _ | fail _ | panic _ => True
  | look next | take next => ∀ record, (next record).Spares part
  | phase next => ∀ current, (next current).Spares part
  | send _ _ next | move _ next => ∀ result, (next result).Spares part
  | close next => next.Spares part
  | inspect next => ∀ session, (next session).Spares part
  | drain next => part = .session ∧ ∀ packets, (next packets).Spares part
  | handshake _ next => ∀ state, (next state).Spares part
  | replace _ _ => False

theorem spares_ofExcept (part : Session.Part) (result : Except ProtocolError α) :
    (ofExcept result).Spares part := by
  cases result <;> exact trivial

/-- Queueing a packet leaves the session in its place and takes nothing from the queue; so it is
with the other operations of a context, and with what is made of them. -/
theorem spares_sendRecord (part : Session.Part) (key : Key) (record : Record) :
    (sendRecord key record).Spares part :=
  fun result => spares_ofExcept part result

theorem spares_setPhase (part : Session.Part) (target : Phase) : (setPhase target).Spares part :=
  fun result => spares_ofExcept part result

theorem spares_closeSession (part : Session.Part) : closeSession.Spares part := trivial

theorem spares_takePacket (part : Session.Part) [TypedPacket α] : (takePacket α).Spares part :=
  fun record => spares_ofExcept part (ProtocolError.ofCodec (RecordForm.ofRecord record))

theorem Spares.bind {β : Type} {part : Session.Part} {script : Script α} {f : α → Script β}
    (h : script.Spares part) (hf : ∀ value, (f value).Spares part) :
    (script.bind f).Spares part := by
  induction script with
  | done value => exact hf value
  | fail | panic => exact trivial
  | look next ih | take next ih | phase next ih | inspect next ih =>
    exact fun value => ih value (h value)
  | send key record next ih | move target next ih => exact fun result => ih result (h result)
  | close next ih => exact ih h
  | drain next ih => exact ⟨h.1, fun packets => ih packets (h.2 packets)⟩
  | handshake change next ih => exact fun state => ih state (h state)
  | replace session next => exact h.elim

/-- The packets that a script queues, first to last. -/
def queued : Script α → Context → List Bytes
  | done _, _ | fail _, _ | panic _, _ => []
  | look next, ctx => (next ctx.packet).queued ctx
  | take next, ctx => (next ctx.packet).queued { ctx with packet := .empty }
  | phase next, ctx => (next ctx.session.phase).queued ctx
  | send key record next, ctx =>
    let (result, session) := ctx.session.sendRecord key record
    ctx.session.queuedSince session ++ (next result).queued { ctx with session }
  | move target next, ctx =>
    let (result, session) := ctx.session.setPhase target
    ctx.session.queuedSince session ++ (next result).queued { ctx with session }
  | close next, ctx => next.queued { ctx with session := ctx.session.close }
  | inspect next, ctx => (next ctx.session).queued ctx
  | drain next, ctx =>
    let (packets, session) := ctx.session.drain
    (next packets).queued { ctx with session }
  | handshake change next, ctx =>
    (next ctx.session.handshake).queued { ctx with session := ctx.session.onHandshake change }
  | replace session next, ctx => (next ctx.session).queued { ctx with session }

/-- What every operation keeps, a script keeps that leaves the session in its place. -/
theorem run_kept {P : Session → Prop} (hkept : Session.Kept P) {script : Script α}
    (hspares : script.Spares .session) {ctx : Context} (h : P ctx.session) :
    P (script.run ctx).2.session := by
  induction script generalizing ctx with
  | done | fail | panic => exact h
  | look next ih | phase next ih | inspect next ih => exact ih _ (hspares _) h
  | take next ih => exact ih _ (hspares _) h
  | send key record next ih => exact ih _ (hspares _) (hkept.sendRecord _ key record h)
  | move target next ih => exact ih _ (hspares _) (hkept.setPhase _ target h)
  | close next ih => exact ih hspares (hkept.close _ h)
  | drain next ih => exact ih _ (hspares.2 _) (hkept.drain _ h)
  | handshake change next ih => exact ih _ (hspares _) (hkept.onHandshake _ change h)
  | replace session next => exact hspares.elim

/-- The queue grows by what a script queues that leaves it alone. -/
theorem run_queued {script : Script α} (hspares : script.Spares .queue) (ctx : Context) :
    (script.run ctx).2.session.outbox = ctx.session.outbox ++ script.queued ctx := by
  induction script generalizing ctx with
  | done | fail | panic => exact (List.append_nil _).symm
  | look next ih | phase next ih | inspect next ih => exact ih _ (hspares _) ctx
  | take next ih => exact ih _ (hspares _) _
  | send key record next ih =>
    have hsend := Session.outbox_eq (ctx.session.prefix_sendRecord key record)
    rw [run, queued, ih _ (hspares _), hsend, List.append_assoc]
  | move target next ih =>
    have hmove := Session.outbox_eq (ctx.session.prefix_setPhase target)
    rw [run, queued, ih _ (hspares _), hmove, List.append_assoc]
  | close next ih => exact ih hspares _
  | drain next ih => cases hspares.1
  | handshake change next ih => exact ih _ (hspares _) _
  | replace session next => exact hspares.elim

end Script

/-! ## Dispatchers -/

theorem Handler.spares_typed {α : Type} [TypedPacket α] {handle : α → Handler} {part : Session.Part}
    (h : ∀ packet turn, (handle packet turn).Spares part) (turn : Nat) :
    (Handler.typed handle turn).Spares part :=
  (Script.spares_takePacket part).bind fun packet => h packet turn

namespace Dispatcher

/-- A dispatcher of which every handler, at every turn, leaves a part of the session alone. -/
def Spares (dispatcher : Dispatcher) (part : Session.Part) : Prop :=
  ∀ key handler, dispatcher.handler? key = some handler → ∀ turn, (handler turn).Spares part

theorem spares_empty (part : Session.Part) : (⟨[]⟩ : Dispatcher).Spares part := by
  intro key handler hbound
  cases hbound

theorem spares_singleton {key : Key} {handler : Handler} {part : Session.Part}
    (h : ∀ turn, (handler turn).Spares part) : (⟨[(key, handler)]⟩ : Dispatcher).Spares part := by
  intro other bound hbound
  rw [handler?, List.lookup_cons] at hbound
  split at hbound
  · cases hbound
    exact h
  · cases hbound

/-- A dispatched packet is a success, or a fault of its handler. -/
theorem dispatch_cases (dispatcher : Dispatcher) (turn : Nat) (ctx : Context) :
    (dispatcher.dispatch turn ctx).1 = .ok () ∨
      ∃ packet reason,
        (dispatcher.dispatch turn ctx).1 = .error (.handlerFailed packet reason) := by
  unfold dispatch
  split
  · exact .inl rfl
  · split
    · exact .inl rfl
    · exact .inr ⟨_, _, rfl⟩
    · exact .inr ⟨_, _, rfl⟩

/-- What a handler leaves is what its script leaves, however that ended. -/
theorem dispatch_of_handler {dispatcher : Dispatcher} {ctx : Context} {handler : Handler}
    (hbound : dispatcher.handler? ctx.descriptor.key = some handler) (turn : Nat) :
    (dispatcher.dispatch turn ctx).2 = ((handler turn).run ctx).2 := by
  rw [dispatch, hbound]
  dsimp only
  rcases (handler turn).run ctx with ⟨ending, after⟩
  cases ending <;> rfl

theorem dispatch_kept {P : Session → Prop} (hkept : Session.Kept P) {dispatcher : Dispatcher}
    (hspares : dispatcher.Spares .session) (turn : Nat) {ctx : Context} (h : P ctx.session) :
    P (dispatcher.dispatch turn ctx).2.session := by
  cases hbound : dispatcher.handler? ctx.descriptor.key with
  | none =>
    rw [dispatch, hbound]
    exact h
  | some handler =>
    rw [dispatch_of_handler hbound]
    exact Script.run_kept hkept (hspares _ handler hbound turn) h

end Dispatcher

end PacketWire
