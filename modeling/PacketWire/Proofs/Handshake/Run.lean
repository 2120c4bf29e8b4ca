import Mathlib.Algebra.Order.Ring.Int
import Mathlib.Tactic.SplitIfs
import PacketWire.Handshake

/-!
# Runs of a handshake

A handshake is opened and judges replies, in any order and any number of times, whatever the replies
carry and whatever the clock shows. The answers given so far decide the next one: they tell whether
a handshake is open, under which nonce, and how many replies have missed the window since it was
opened.

* `State.judged_verify`: what a reply leads to, case by case.
* `Tracks.observe`: one call keeps the state in step with the answers, as long as the counter of
  replies does not wrap.
* `run_lawful`: so every run settles on a matching reply only, gives up after the allowed number of
  misses, and keeps its state across every other fault.
-/

namespace PacketWire.Handshake

/-! ## Calls and answers -/

/-- What a handshake is asked to do. -/
inductive Call where
  | start (nonce now : UInt32)
  | verify (reply : Handshake) (now : UInt32)

/-- Whether the call is a reply. -/
def Call.isReply : Call → Bool
  | .start _ _ => false
  | .verify _ _ => true

/-- What it answers. -/
inductive Answer where
  | opening (result : Except HandshakeError Handshake)
  | verdict (result : Except HandshakeError Outcome)

/-- A call and its answer. -/
structure Event where
  call : Call
  answer : Answer

/-- The fault that an answer reports. -/
def Answer.fault? : Answer → Option HandshakeError
  | .opening (.error fault) | .verdict (.error fault) => some fault
  | _ => none

/-- The answer to a call, and the state it leaves. -/
def State.apply (settings : HandshakeSettings) (state : State) : Call → Answer × State
  | .start nonce now => (state.start nonce now).map .opening id
  | .verify reply now => (state.verify reply now settings).map .verdict id

/-- One call more: its answer goes in front of the earlier ones. -/
def observe (settings : HandshakeSettings) (past : List Event × State) (call : Call) :
    List Event × State :=
  let (answer, next) := past.2.apply settings call
  (⟨call, answer⟩ :: past.1, next)

/-- The answers to some calls on a fresh handshake, latest first, and the state they leave. -/
def run (settings : HandshakeSettings) (calls : List Call) : List Event × State :=
  calls.foldl (observe settings) ([], {})

/-! ## Replies -/

/-- The clock of a reply agrees with the server's: it is behind by no more than the tolerance. -/
def Agrees (settings : HandshakeSettings) (reply : Handshake) (now : UInt32) : Prop :=
  0 ≤ State.difference now (reply.time + reply.delta) ∧
    State.difference now (reply.time + reply.delta) ≤ settings.toleranceMs.toNat

/-- The delta to ask for next: half of the observed difference. -/
def correction (reply : Handshake) (now : UInt32) : Int :=
  (State.difference now reply.time).tdiv 2

/-- A reply that costs an attempt: it carries the nonce, misses the window and asks for no negative
delta. -/
def Misses (settings : HandshakeSettings) (nonce : UInt32) (reply : Handshake) (now : UInt32) :
    Prop :=
  reply.nonce = nonce ∧ ¬Agrees settings reply now ∧ 0 ≤ correction reply now

instance (settings : HandshakeSettings) (nonce : UInt32) (reply : Handshake) (now : UInt32) :
    Decidable (Misses settings nonce reply now) :=
  inferInstanceAs (Decidable (_ ∧ ¬(_ ∧ _) ∧ _))

/-- A difference of clocks is a signed 32-bit number, so its half is below `2 ^ 30`. -/
theorem correction_lt (reply : Handshake) (now : UInt32) : correction reply now < 2 ^ 30 := by
  have hlt : State.difference now reply.time < 2 ^ 31 := BitVec.toInt_lt
  rw [correction, Int.tdiv_eq_ediv]
  split
  · omega
  · have hsign : Int.sign 2 = 1 := rfl
    omega

/-! ## What the answers tell -/

/-- The nonce of a start that succeeded. -/
def Event.opens? : Event → Option UInt32
  | ⟨.start nonce _, .opening (.ok _)⟩ => some nonce
  | _ => none

/-- Whether the answer asks for another reply. -/
def Event.retries : Event → Bool
  | ⟨_, .verdict (.ok (.retry _))⟩ => true
  | _ => false

/-- Whether the call is a reply. -/
def Event.isReply (event : Event) : Bool := event.call.isReply

/-- Whether the call is a reply that costs an attempt. -/
def Event.misses (settings : HandshakeSettings) (nonce : UInt32) : Event → Bool
  | ⟨.verify reply now, _⟩ => Misses settings nonce reply now
  | _ => false

/-- The nonce of the latest start that succeeded. -/
def latestNonce? (events : List Event) : Option UInt32 := events.findSome? Event.opens?

/-- The events since the latest start that succeeded. -/
def sinceOpening (events : List Event) : List Event := events.takeWhile (·.opens?.isNone)

/-- The packet that waits for a reply: the last one sent, unless a reply has settled the handshake
since. -/
def question? : List Event → Option Handshake
  | [] => none
  | ⟨_, .opening (.ok packet)⟩ :: _ | ⟨_, .verdict (.ok (.retry packet))⟩ :: _ => some packet
  | ⟨_, .verdict (.ok .complete)⟩ :: _ => none
  | ⟨_, .opening (.error _)⟩ :: events | ⟨_, .verdict (.error _)⟩ :: events => question? events

/-- The replies since the latest start that cost an attempt. -/
def missed (settings : HandshakeSettings) (nonce : UInt32) (events : List Event) : Nat :=
  (sinceOpening events).countP (·.misses settings nonce)

/-! ## One reply -/

/-- A reply with a nonce is awaited. -/
def State.Awaits (state : State) (nonce : UInt32) : Prop :=
  state.isHandshaking = true ∧ state.nonce? = some nonce

/-- What a reply leads to in a state. -/
inductive Judged (settings : HandshakeSettings) (state : State) (reply : Handshake)
    (now : UInt32) : Except HandshakeError Outcome → State → Prop
  | notStarted : (∀ nonce, ¬state.Awaits nonce) →
      Judged settings state reply now (.error .notStarted) state
  | mismatch {nonce : UInt32} : state.Awaits nonce → reply.nonce ≠ nonce →
      Judged settings state reply now (.error .nonceMismatch) state
  | settled {nonce : UInt32} : state.Awaits nonce → reply.nonce = nonce →
      Agrees settings reply now →
      Judged settings state reply now (.ok .complete)
        { state with nonce? := none, serverTime? := none, isHandshaking := false }
  | ahead {nonce : UInt32} : state.Awaits nonce → reply.nonce = nonce →
      correction reply now < 0 → Judged settings state reply now (.error .negativeDelta) state
  | retry {nonce : UInt32} : state.Awaits nonce → Misses settings nonce reply now →
      state.tries + 1 < settings.maxAttempts →
      Judged settings state reply now
        (.ok (.retry ⟨nonce, now, .ofNat (correction reply now).toNat⟩))
        { state with serverTime? := some now, tries := state.tries + 1 }
  | exhausted {nonce : UInt32} : state.Awaits nonce → Misses settings nonce reply now →
      settings.maxAttempts ≤ state.tries + 1 →
      Judged settings state reply now (.error .notConverged)
        { state with tries := state.tries + 1 }

theorem State.judged_verify (settings : HandshakeSettings) (state : State) (reply : Handshake)
    (now : UInt32) : Judged settings state reply now (state.verify reply now settings).1
      (state.verify reply now settings).2 := by
  unfold State.verify
  split
  · next nonce hopen hnonce =>
    have hawaits : state.Awaits nonce := ⟨hopen, hnonce⟩
    dsimp only
    split_ifs with hother hagrees hahead hlast
    · exact .mismatch hawaits hother
    · exact .settled hawaits (Decidable.not_not.mp hother) hagrees
    · exact .ahead hawaits (Decidable.not_not.mp hother) hahead
    · exact .exhausted hawaits ⟨Decidable.not_not.mp hother, hagrees, Int.not_lt.mp hahead⟩ hlast
    · exact .retry hawaits ⟨Decidable.not_not.mp hother, hagrees, Int.not_lt.mp hahead⟩
        (UInt32.not_le.mp hlast)
  · next hnone => exact .notStarted fun nonce hawaits => hnone nonce hawaits.1 hawaits.2

theorem Judged.of_verify {settings : HandshakeSettings} {state : State} {reply : Handshake}
    {now : UInt32} {result : Except HandshakeError Outcome} {after : State}
    (h : state.verify reply now settings = (result, after)) :
    Judged settings state reply now result after := by
  have hjudged := state.judged_verify settings reply now
  rwa [h] at hjudged

/-! ## Runs -/

/-- The state that some answers tell. -/
structure Tracks (settings : HandshakeSettings) (events : List Event) (state : State) : Prop where
  nonce? : state.nonce? = (question? events).map (·.nonce)
  serverTime? : state.serverTime? = (question? events).map (·.time)
  handshaking : state.isHandshaking = (question? events).isSome
  latest : ∀ packet, question? events = some packet → latestNonce? events = some packet.nonce
  missed : ∀ packet, question? events = some packet →
    state.attempts = missed settings packet.nonce events
  retries : (sinceOpening events).countP Event.retries ≤ state.attempts ∧
    (sinceOpening events).countP Event.retries ≤ settings.maxAttempts.toNat - 1
  attempts : state.attempts ≤ events.countP Event.isReply

theorem tracks_nil (settings : HandshakeSettings) : Tracks settings [] {} where
  nonce? := rfl
  serverTime? := rfl
  handshaking := rfl
  latest := by simp [question?]
  missed := by simp [question?]
  retries := by simp [sinceOpening]
  attempts := Nat.le_refl 0

section

variable {settings : HandshakeSettings} {events : List Event} {state : State}

/-- An open handshake, as the answers tell it. -/
theorem Tracks.question (h : Tracks settings events state) {nonce : UInt32}
    (hawaits : state.Awaits nonce) :
    ∃ packet, question? events = some packet ∧ packet.nonce = nonce := by
  have hnonce := hawaits.2
  rwa [h.nonce?, Option.map_eq_some_iff] at hnonce

theorem sinceOpening_reply (reply : Handshake) (now : UInt32) (answer : Answer)
    (events : List Event) : sinceOpening (⟨.verify reply now, answer⟩ :: events) =
      ⟨.verify reply now, answer⟩ :: sinceOpening events :=
  List.takeWhile_cons_of_pos rfl

theorem missed_reply (nonce : UInt32) (reply : Handshake) (now : UInt32) (answer : Answer)
    (events : List Event) : missed settings nonce (⟨.verify reply now, answer⟩ :: events) =
      missed settings nonce events + if Misses settings nonce reply now then 1 else 0 := by
  rw [missed, sinceOpening_reply, List.countP_cons]
  simp only [Event.misses, decide_eq_true_eq]
  rfl

/-- The counter goes up by one, below its limit. -/
theorem State.toNat_tries_succ (h : state.attempts + 1 < 2 ^ 32) :
    (state.tries + 1).toNat = state.attempts + 1 := by
  rw [UInt32.toNat_add]
  exact Nat.mod_eq_of_lt h

/-- A fault that costs no attempt leaves everything as the answers before it told. -/
theorem Tracks.fault (h : Tracks settings events state) {reply : Handshake} {now : UInt32}
    {fault : HandshakeError}
    (hmisses : ∀ nonce, state.Awaits nonce → ¬Misses settings nonce reply now) :
    Tracks settings (⟨.verify reply now, .verdict (.error fault)⟩ :: events) state where
  nonce? := h.nonce?
  serverTime? := h.serverTime?
  handshaking := h.handshaking
  latest := h.latest
  missed := by
    intro packet hpacket
    have hawaits : state.Awaits packet.nonce := by
      rw [State.Awaits, h.handshaking, h.nonce?,
        show question? events = some packet from hpacket]
      exact ⟨rfl, rfl⟩
    rw [missed_reply, if_neg (hmisses _ hawaits), Nat.add_zero]
    exact h.missed packet hpacket
  retries := by
    rw [sinceOpening_reply, List.countP_cons_of_neg (by simp [Event.retries])]
    exact h.retries
  attempts := by
    rw [List.countP_cons_of_pos (by rfl)]
    exact Nat.le_succ_of_le h.attempts

/-- A reply keeps the state in step with the answers. -/
theorem Tracks.verify (h : Tracks settings events state)
    (hfew : events.countP Event.isReply + 1 < 2 ^ 32) {reply : Handshake} {now : UInt32}
    {result : Except HandshakeError Outcome} {after : State}
    (hjudged : Judged settings state reply now result after) :
    Tracks settings (⟨.verify reply now, .verdict result⟩ :: events) after := by
  have hreplies : ∀ answer, List.countP Event.isReply (⟨.verify reply now, answer⟩ :: events) =
      events.countP Event.isReply + 1 := fun answer => List.countP_cons_of_pos rfl
  have hattempts := h.attempts
  have htries : (state.tries + 1).toNat = state.attempts + 1 :=
    State.toNat_tries_succ (Nat.lt_of_le_of_lt (Nat.succ_le_succ hattempts) hfew)
  cases hjudged with
  | notStarted hnone => exact h.fault fun nonce hawaits => absurd hawaits (hnone nonce)
  | @mismatch nonce hawaits hother =>
    refine h.fault fun other hopen hmisses => hother ?_
    have hsame : some nonce = some other := hawaits.2.symm.trans hopen.2
    cases hsame
    exact hmisses.1
  | settled hawaits hnonce hagrees =>
    refine ⟨rfl, rfl, rfl, by simp [question?], by simp [question?], ?_, ?_⟩
    · rw [sinceOpening_reply, List.countP_cons_of_neg (by simp [Event.retries])]
      exact h.retries
    · rw [hreplies]
      exact Nat.le_succ_of_le hattempts
  | ahead hawaits hnonce hneg =>
    exact h.fault fun nonce _ hmisses => absurd hmisses.2.2 (Int.not_le.mpr hneg)
  | retry hawaits hmisses hlt =>
    obtain ⟨packet, hpacket, rfl⟩ := h.question hawaits
    rw [UInt32.lt_iff_toNat_lt, htries] at hlt
    refine ⟨hawaits.2, rfl, hawaits.1, ?_, ?_, ?_, ?_⟩
    · rintro _ ⟨⟩
      exact h.latest packet hpacket
    · rintro _ ⟨⟩
      rw [missed_reply, if_pos hmisses, State.attempts, htries, h.missed packet hpacket]
    · rw [sinceOpening_reply, List.countP_cons_of_pos (by rfl), State.attempts, htries]
      have := h.retries.1
      omega
    · rw [hreplies, State.attempts, htries]
      exact Nat.succ_le_succ hattempts
  | exhausted hawaits hmisses hle =>
    obtain ⟨packet, hpacket, rfl⟩ := h.question hawaits
    refine ⟨h.nonce?, h.serverTime?, h.handshaking, h.latest, ?_, ?_, ?_⟩
    · intro other hother
      rw [show question? events = some other from hother] at hpacket
      cases hpacket
      rw [missed_reply, if_pos hmisses, State.attempts, htries, h.missed _ hother]
    · rw [sinceOpening_reply, List.countP_cons_of_neg (by simp [Event.retries]), State.attempts,
        htries]
      exact ⟨Nat.le_succ_of_le h.retries.1, h.retries.2⟩
    · rw [hreplies, State.attempts, htries]
      exact Nat.succ_le_succ hattempts

theorem State.start_of_open (nonce now : UInt32) (h : state.isHandshaking = true) :
    state.start nonce now = (.error .alreadyStarted, state) :=
  if_pos h

theorem State.start_of_closed (nonce now : UInt32) (h : ¬state.isHandshaking = true) :
    state.start nonce now = (.ok ⟨nonce, now, 0⟩, .opened nonce now) :=
  if_neg h

/-- A start opens a handshake, unless one is open. -/
theorem Tracks.start (h : Tracks settings events state) (nonce now : UInt32) :
    Tracks settings (⟨.start nonce now, .opening (state.start nonce now).1⟩ :: events)
      (state.start nonce now).2 := by
  by_cases hopen : state.isHandshaking = true
  · rw [State.start_of_open nonce now hopen]
    have hsince : sinceOpening (⟨.start nonce now, .opening (.error .alreadyStarted)⟩ :: events) =
        ⟨.start nonce now, .opening (.error .alreadyStarted)⟩ :: sinceOpening events :=
      List.takeWhile_cons_of_pos rfl
    refine ⟨h.nonce?, h.serverTime?, h.handshaking, h.latest, ?_, ?_, h.attempts⟩
    · intro packet hpacket
      rw [Handshake.missed, hsince, List.countP_cons_of_neg (by simp [Event.misses])]
      exact h.missed packet hpacket
    · rw [hsince, List.countP_cons_of_neg (by simp [Event.retries])]
      exact h.retries
  · rw [State.start_of_closed nonce now hopen]
    refine ⟨rfl, rfl, rfl, ?_, ?_, ?_, Nat.zero_le _⟩
    · rintro _ ⟨⟩
      rfl
    · rintro _ ⟨⟩
      rfl
    · exact ⟨Nat.le_refl 0, Nat.zero_le _⟩

theorem Tracks.observe (h : Tracks settings events state) (call : Call)
    (hfew : events.countP Event.isReply + [call].countP Call.isReply < 2 ^ 32) :
    Tracks settings (Handshake.observe settings (events, state) call).1
      (Handshake.observe settings (events, state) call).2 := by
  cases call with
  | start nonce now => exact h.start nonce now
  | verify reply now => exact h.verify hfew (state.judged_verify settings reply now)

theorem countP_observe (settings : HandshakeSettings) (past : List Event × State) (call : Call) :
    (Handshake.observe settings past call).1.countP Event.isReply =
      past.1.countP Event.isReply + [call].countP Call.isReply := by
  cases call with
  | start nonce now => exact List.countP_cons_of_neg (by simp [Event.isReply, Call.isReply])
  | verify reply now => exact List.countP_cons_of_pos rfl

theorem Tracks.foldl (h : Tracks settings events state) (calls : List Call)
    (hfew : events.countP Event.isReply + calls.countP Call.isReply < 2 ^ 32) :
    Tracks settings (calls.foldl (Handshake.observe settings) (events, state)).1
      (calls.foldl (Handshake.observe settings) (events, state)).2 := by
  induction calls generalizing events state with
  | nil => exact h
  | cons call calls ih =>
    have hsplit : (call :: calls).countP Call.isReply =
        [call].countP Call.isReply + calls.countP Call.isReply := by
      rw [← List.singleton_append, List.countP_append]
    have hrest : (Handshake.observe settings (events, state) call).1.countP Event.isReply +
        calls.countP Call.isReply < 2 ^ 32 := by
      rw [countP_observe, Nat.add_assoc, ← hsplit]
      exact hfew
    exact ih (h.observe call (by omega)) hrest

end

/-- What holds after some answers: what the state shows of them, and what the next call can lead
to. -/
structure Lawful (settings : HandshakeSettings) (events : List Event) (state : State) : Prop where
  /-- The three signs of an open handshake come together. -/
  handshaking : (state.isHandshaking = true ↔ state.nonce?.isSome = true) ∧
    (state.nonce?.isSome = true ↔ state.serverTime?.isSome = true)
  /-- They belong to the packet that waits for a reply. -/
  question : state.nonce? = (question? events).map (·.nonce) ∧
    state.serverTime? = (question? events).map (·.time)
  /-- A reply settles the handshake only with the nonce of the latest start and a clock that agrees.
  From then on every reply is refused until the next start. -/
  complete : ∀ reply now after, state.verify reply now settings = (.ok .complete, after) →
    latestNonce? events = some reply.nonce ∧ Agrees settings reply now ∧
      ∀ later clock, after.verify later clock settings = (.error .notStarted, after)
  /-- A reply that costs an attempt is the next of those since the start. It is answered by another
  question below the limit, and with the end of the handshake from there on. -/
  miss : ∀ nonce reply now, events.countP Event.isReply + 1 < 2 ^ 32 →
    state.isHandshaking = true → latestNonce? events = some nonce →
    Misses settings nonce reply now →
    (state.verify reply now settings).1 =
      if missed settings nonce events + 1 < settings.maxAttempts.toNat then
        .ok (.retry ⟨nonce, now, .ofNat (correction reply now).toNat⟩)
      else .error .notConverged
  /-- Another question carries the nonce of the latest start, the clock and a small delta. -/
  retry : ∀ reply now packet after,
    state.verify reply now settings = (.ok (.retry packet), after) →
    latestNonce? events = some packet.nonce ∧ packet.time = now ∧ packet.delta.toNat < 2 ^ 30
  /-- There are fewer further questions than attempts. -/
  retries : (sinceOpening events).countP Event.retries ≤ settings.maxAttempts.toNat - 1
  /-- A fault leaves the state as it is, unless it ends a handshake that does not converge. -/
  fault : ∀ call answer after fault, state.apply settings call = (answer, after) →
    answer.fault? = some fault → fault ≠ .notConverged → after = state
  /-- The attempts that are counted are replies. -/
  attempts : state.attempts ≤ events.countP Event.isReply

section

variable {settings : HandshakeSettings} {events : List Event} {state : State}

theorem Tracks.latest_of_awaits (h : Tracks settings events state) {nonce : UInt32}
    (hawaits : state.Awaits nonce) : latestNonce? events = some nonce := by
  obtain ⟨packet, hpacket, rfl⟩ := h.question hawaits
  exact h.latest packet hpacket

/-- A call that fails other than by giving up changes nothing. -/
theorem State.apply_eq_self {call : Call} {answer : Answer} {after : State}
    {fault : HandshakeError} (h : state.apply settings call = (answer, after))
    (hanswer : answer.fault? = some fault) (hfault : fault ≠ .notConverged) : after = state := by
  cases call with
  | start nonce now =>
    by_cases hopen : state.isHandshaking = true
    · rw [State.apply, State.start_of_open nonce now hopen] at h
      cases h
      rfl
    · rw [State.apply, State.start_of_closed nonce now hopen] at h
      cases h
      cases hanswer
  | verify reply now =>
    cases hverify : state.verify reply now settings with | _ result next
    rw [State.apply, hverify] at h
    cases h
    cases Judged.of_verify hverify with
    | notStarted | mismatch | ahead => rfl
    | settled | retry => cases hanswer
    | exhausted =>
      cases hanswer
      exact absurd rfl hfault

theorem Tracks.lawful (h : Tracks settings events state) : Lawful settings events state where
  handshaking := by
    rw [h.handshaking, h.nonce?, h.serverTime?]
    simp
  question := ⟨h.nonce?, h.serverTime?⟩
  complete := by
    intro reply now after hverify
    cases Judged.of_verify hverify with
    | settled hawaits hnonce hagrees =>
      rw [hnonce]
      exact ⟨h.latest_of_awaits hawaits, hagrees, fun _ _ => rfl⟩
  miss := by
    intro nonce reply now hfew hopen hlatest hmisses
    obtain ⟨packet, hpacket⟩ := Option.isSome_iff_exists.mp (h.handshaking.symm.trans hopen)
    have hnonce : packet.nonce = nonce :=
      Option.some.inj ((h.latest packet hpacket).symm.trans hlatest)
    have hawaits : state.Awaits nonce := by
      rw [State.Awaits, h.nonce?, hpacket, Option.map_some, hnonce]
      exact ⟨hopen, rfl⟩
    have hmissed := h.missed packet hpacket
    have htries : (state.tries + 1).toNat = Handshake.missed settings nonce events + 1 := by
      have := h.attempts
      rw [State.toNat_tries_succ (by omega), hmissed, hnonce]
    have hsame : ∀ other, state.Awaits other → other = nonce := fun other hother =>
      Option.some.inj (hother.2.symm.trans hawaits.2)
    rw [← htries]
    cases hverify : state.verify reply now settings with | _ result after
    cases Judged.of_verify hverify with
    | notStarted hnone => exact absurd hawaits (hnone nonce)
    | mismatch hother hne => exact absurd (hmisses.1.trans (hsame _ hother).symm) hne
    | settled _ _ hagrees => exact absurd hagrees hmisses.2.1
    | ahead _ _ hneg => exact absurd hmisses.2.2 (Int.not_le.mpr hneg)
    | retry hother _ hlt => rw [if_pos (UInt32.lt_iff_toNat_lt.mp hlt), hsame _ hother]
    | exhausted _ _ hle => rw [if_neg (Nat.not_lt.mpr (UInt32.le_iff_toNat_le.mp hle))]
  retry := by
    intro reply now packet after hverify
    cases Judged.of_verify hverify with
    | retry hawaits hmisses _ =>
      refine ⟨h.latest_of_awaits hawaits, rfl, ?_⟩
      have hpos := hmisses.2.2
      have hlt := correction_lt reply now
      rw [UInt32.toNat_ofNat']
      omega
  retries := h.retries.2
  fault := fun _ _ _ _ happly hanswer hfault => State.apply_eq_self happly hanswer hfault
  attempts := h.attempts

end

/-- After every run of calls on a fresh handshake, under any settings, replies and clock, with fewer
replies than the counter can count: the state shows the packet that waits for a reply. The next reply
settles the handshake only with the nonce of the latest start and a clock that agrees, and from then
on replies are refused until the next start. A reply that costs an attempt is answered by another
question as long as attempts are left, and ends the handshake from there on; every other fault leaves
the state as it is. -/
theorem run_lawful (settings : HandshakeSettings) (calls : List Call)
    (hfew : calls.countP Call.isReply < 2 ^ 32) :
    Lawful settings (run settings calls).1 (run settings calls).2 := by
  refine ((tracks_nil settings).foldl calls ?_).lawful
  rwa [List.countP_nil, Nat.zero_add]

/-- A reply with another nonce costs no attempt, the first that misses the window is answered by
another question, and the second ends the handshake where two attempts are allowed. -/
theorem run_lawful_twoAttempts :
    let settings : HandshakeSettings := { maxAttempts := 2 }
    let calls := [.start 7 1000, .verify ⟨8, 1000, 0⟩ 1200, .verify ⟨7, 1000, 0⟩ 1200,
      .verify ⟨7, 1200, 100⟩ 1400]
    (run settings calls).1.map (·.answer.fault?) =
        [some .notConverged, none, some .nonceMismatch, none] ∧
      Lawful settings (run settings calls).1 (run settings calls).2 :=
  ⟨by decide, run_lawful _ _ (by decide)⟩

end PacketWire.Handshake
