import Mathlib.Data.UInt
import PacketWire.Proofs.Handshake.Run
import PacketWire.Settings.Problem

/-!
# Settling with a client that echoes

A client that echoes takes over the clock of a question with the delta it was asked to add, and
sends both back. Its echo is behind the server's clock by the round trip less twice the delta. The
first delta is zero and the next is half the round trip, so after one correction a link whose round
trip does not change is within a millisecond.

* `agrees_echo`: the round trips on which an echo is accepted.
* `correction_echo`: the delta that is asked for next.
* `echo_converges`: the first two exchanges of a handshake.
-/

namespace PacketWire.Handshake

/-- The reply of a client that sets its clock to that of the question, moved on by the delta. -/
def echo (question : Handshake) : Handshake :=
  { question with time := question.time + question.delta }

/-- What the echo of a question leads to when it comes a round trip after the question. -/
def State.exchange (settings : HandshakeSettings) (state : State) (question : Handshake)
    (trip : UInt32) : Except HandshakeError Outcome × State :=
  state.verify (echo question) (question.time + trip) settings

/-! ## Echoes -/

/-- Clocks that are moved on from one origin, by less than half of the range, differ by what they
are moved on. -/
theorem State.difference_add {a b : UInt32} (ha : a.toNat < 2 ^ 31) (hb : b.toNat ≤ 2 ^ 31)
    (origin : UInt32) : difference (origin + a) (origin + b) = (a.toNat : Int) - b.toNat := by
  have hsub : (a - b).toBitVec.toNat = (2 ^ 32 - b.toNat + a.toNat) % 2 ^ 32 :=
    UInt32.toNat_sub a b
  unfold difference
  rw [add_sub_add_left_eq_sub, BitVec.toInt_eq_toNat_cond, hsub]
  split <;> omega

section

variable {question : Handshake} {trip : UInt32} (hdelta : question.delta.toNat < 2 ^ 30)
  (htrip : trip.toNat < 2 ^ 31)
include hdelta htrip

/-- An echo is accepted when the round trip is twice the delta, or longer by no more than the
tolerance. -/
theorem agrees_echo (settings : HandshakeSettings) :
    Agrees settings (echo question) (question.time + trip) ↔
      2 * question.delta.toNat ≤ trip.toNat ∧
        trip.toNat ≤ 2 * question.delta.toNat + settings.toleranceMs.toNat := by
  have htwice : (question.delta + question.delta).toNat = 2 * question.delta.toNat := by
    rw [UInt32.toNat_add]
    omega
  have hclock : (echo question).time + (echo question).delta =
      question.time + (question.delta + question.delta) :=
    add_assoc question.time question.delta question.delta
  unfold Agrees
  rw [hclock, State.difference_add htrip (by omega), htwice]
  omega

/-- The delta that is asked for next is half of what the round trip has over the delta before. -/
theorem correction_echo : correction (echo question) (question.time + trip) =
    ((trip.toNat : Int) - question.delta.toNat).tdiv 2 := by
  unfold correction
  rw [show (echo question).time = question.time + question.delta from rfl,
    State.difference_add htrip (by omega)]

end

/-! ## One exchange -/

section

variable {settings : HandshakeSettings} {state : State} {reply : Handshake} {now : UInt32}
  (hawaits : state.Awaits reply.nonce)
include hawaits

/-- A reply with the nonce that is awaited settles the handshake exactly when its clock agrees. -/
theorem State.verify_complete_iff :
    (state.verify reply now settings).1 = .ok .complete ↔ Agrees settings reply now := by
  unfold verify
  rw [hawaits.1, hawaits.2]
  dsimp only
  rw [if_neg (not_not.mpr rfl)]
  split
  · next hagrees => exact iff_of_true rfl hagrees
  · next hagrees =>
    refine iff_of_false ?_ hagrees
    split
    · simp
    · split <;> simp

/-- A reply that costs an attempt, with one more left, is answered by another question. -/
theorem State.verify_eq_retry (hmisses : Misses settings reply.nonce reply now)
    (hleft : state.tries + 1 < settings.maxAttempts) :
    state.verify reply now settings =
      (.ok (.retry ⟨reply.nonce, now, .ofNat (correction reply now).toNat⟩),
        { state with serverTime? := some now, tries := state.tries + 1 }) := by
  have hsame : ∀ nonce, state.Awaits nonce → nonce = reply.nonce := fun nonce hnonce =>
    Option.some.inj (hnonce.2.symm.trans hawaits.2)
  cases hverify : state.verify reply now settings with | _ result after
  cases Judged.of_verify hverify with
  | notStarted hnone => exact absurd hawaits (hnone reply.nonce)
  | mismatch hother hne => exact absurd (hsame _ hother).symm hne
  | settled _ _ hagrees => exact absurd hagrees hmisses.2.1
  | ahead _ _ hneg => exact absurd hmisses.2.2 (Int.not_le.mpr hneg)
  | retry hother _ _ => rw [hsame _ hother]
  | exhausted _ _ hle => exact absurd hleft (UInt32.not_lt.mpr hle)

end

/-! ## Exchanges -/

section

variable {settings : HandshakeSettings} {state : State} {question : Handshake} {trip : UInt32}
  (hawaits : state.Awaits question.nonce) (hdelta : question.delta.toNat < 2 ^ 30)
  (htrip : trip.toNat < 2 ^ 31)
include hawaits hdelta htrip

theorem exchange_complete_iff :
    (state.exchange settings question trip).1 = .ok .complete ↔
      2 * question.delta.toNat ≤ trip.toNat ∧
        trip.toNat ≤ 2 * question.delta.toNat + settings.toleranceMs.toNat := by
  have hecho : state.Awaits (echo question).nonce := hawaits
  rw [← agrees_echo hdelta htrip]
  exact State.verify_complete_iff hecho

/-- A longer round trip is answered by another question, with half of what the trip has over the
delta, where an attempt is left for it. -/
theorem exchange_of_long
    (hlong : 2 * question.delta.toNat + settings.toleranceMs.toNat < trip.toNat)
    (hleft : state.tries + 1 < settings.maxAttempts) :
    ∃ next after, state.exchange settings question trip = (.ok (.retry next), after) ∧
      after.Awaits next.nonce ∧ next.nonce = question.nonce ∧
      next.time = question.time + trip ∧
      next.delta.toNat = (trip.toNat - question.delta.toNat) / 2 := by
  have hcorrection : correction (echo question) (question.time + trip) =
      ((trip.toNat - question.delta.toNat) / 2 : Nat) := by
    rw [correction_echo hdelta htrip, Int.tdiv_eq_ediv_of_nonneg (by omega)]
    omega
  have hmisses : Misses settings question.nonce (echo question) (question.time + trip) := by
    refine ⟨rfl, ?_, by omega⟩
    intro hagrees
    have := (agrees_echo hdelta htrip settings).mp hagrees
    omega
  have hecho : state.Awaits (echo question).nonce := hawaits
  refine ⟨_, _, State.verify_eq_retry hecho hmisses hleft, hawaits, rfl, rfl, ?_⟩
  show (UInt32.ofNat _).toNat = _
  rw [hcorrection, Int.toNat_natCast, UInt32.toNat_ofNat']
  omega

end

/-- The first two exchanges of a handshake under settings that a server accepts, with two attempts
at least, whatever the clock shows when it is opened. A first round trip within the tolerance
settles it; a longer one is answered by a question with half of it as the delta, and then a round
trip settles it that is as long as twice this delta or longer by no more than the tolerance. So a
round trip that stays the same settles it with the second exchange at the latest. -/
theorem echo_converges {settings : HandshakeSettings} (hvalid : settings.problems = [])
    (hattempts : 2 ≤ settings.maxAttempts.toNat) {state : State}
    (hidle : ¬state.isHandshaking = true) (nonce clock : UInt32) {first second : UInt32}
    (hfirst : first.toNat < 2 ^ 31) (hsecond : second.toNat < 2 ^ 31) :
    ∃ opening waiting result after,
      state.start nonce clock = (.ok opening, waiting) ∧
      waiting.exchange settings opening first = (result, after) ∧
      (result = .ok .complete ↔ first.toNat ≤ settings.toleranceMs.toNat) ∧
      (settings.toleranceMs.toNat < first.toNat →
        ∃ question : Handshake, result = .ok (.retry question) ∧ question.nonce = nonce ∧
          question.time = clock + first ∧ question.delta.toNat = first.toNat / 2 ∧
          ((after.exchange settings question second).1 = .ok .complete ↔
            2 * (first.toNat / 2) ≤ second.toNat ∧
              second.toNat ≤ 2 * (first.toNat / 2) + settings.toleranceMs.toNat) ∧
          (second = first → (after.exchange settings question second).1 = .ok .complete)) := by
  obtain ⟨⟨htolerance, -⟩, -, -⟩ := HandshakeSettings.problems_eq_nil_iff.mp hvalid
  have hopened : (State.opened nonce clock).Awaits (Handshake.mk nonce clock 0).nonce := ⟨rfl, rfl⟩
  have hzero : (Handshake.mk nonce clock 0).delta.toNat = 0 := rfl
  have hcomplete :=
    @exchange_complete_iff settings (.opened nonce clock) ⟨nonce, clock, 0⟩ first hopened (by omega)
      hfirst
  have hretry :=
    @exchange_of_long settings (.opened nonce clock) ⟨nonce, clock, 0⟩ first hopened (by omega)
      hfirst
  rw [hzero] at hcomplete hretry
  cases hexchange : (State.opened nonce clock).exchange settings ⟨nonce, clock, 0⟩ first with
  | _ result after =>
    rw [hexchange] at hcomplete hretry
    refine ⟨_, _, result, after, State.start_of_closed nonce clock hidle, hexchange, ?_, ?_⟩
    · rw [hcomplete]
      omega
    · intro hlong
      have hleft : (State.opened nonce clock).tries + 1 < settings.maxAttempts := by
        rw [UInt32.lt_iff_toNat_lt]
        exact hattempts
      obtain ⟨question, left, hresult, hawaits, hnonce, htime, hdelta⟩ := hretry (by omega) hleft
      cases hresult
      have hagain : (after.exchange settings question second).1 = .ok .complete ↔
          2 * (first.toNat / 2) ≤ second.toNat ∧
            second.toNat ≤ 2 * (first.toNat / 2) + settings.toleranceMs.toNat := by
        rw [exchange_complete_iff hawaits (by omega) hsecond, hdelta]
        rfl
      refine ⟨question, rfl, hnonce, htime, hdelta, hagain, ?_⟩
      rintro rfl
      -- an odd round trip is one longer than twice its half, and the tolerance is at least one
      exact hagain.mpr ⟨by omega, by omega⟩

/-- An odd round trip, with a clock that wraps on the way. -/
theorem echo_converges_oddTrip : ∃ opening waiting question after,
    State.start {} 3 0xffffff69 = (.ok opening, waiting) ∧
      waiting.exchange {} opening 401 = (.ok (.retry question), after) ∧
      question.time = 250 ∧ question.delta.toNat = 200 ∧
      (after.exchange {} question 401).1 = .ok .complete := by
  obtain ⟨opening, waiting, result, after, hstart, hfirst, -, hlong⟩ :=
    @echo_converges {} (by decide) (by decide) {} (by decide) 3 0xffffff69 401 401 (by decide)
      (by decide)
  obtain ⟨question, rfl, -, htime, hdelta, -, hsame⟩ := hlong (by decide)
  exact ⟨opening, waiting, question, after, hstart, hfirst, htime, hdelta, hsame rfl⟩

end PacketWire.Handshake
