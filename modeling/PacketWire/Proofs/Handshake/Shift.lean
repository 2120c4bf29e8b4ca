import Mathlib.Data.UInt
import PacketWire.Proofs.Handshake.Run

/-!
# Clocks that start elsewhere

A handshake compares clocks by their differences only, so it does not matter where a clock stands
when it begins. Two runs whose clocks are a constant apart, on the server and in the replies, give
the same answers, and the clocks in these answers are the same constant apart.

* `State.difference_shift`: differences do not see the constant.
* `State.apply_shift`: one call gives the same answer.
* `run_shift`: so does every call of a run.
-/

namespace PacketWire

/-- The packet with its clock moved on. -/
def Handshake.shift (k : UInt32) (packet : Handshake) : Handshake :=
  { packet with time := packet.time + k }

namespace Handshake

/-! ## Moving clocks -/

/-- The outcome with the clock of its packet moved on. -/
def Outcome.shift (k : UInt32) : Outcome → Outcome
  | .complete => .complete
  | .retry next => .retry (next.shift k)

/-- The state with the clock that it keeps moved on. -/
def State.shift (k : UInt32) (state : State) : State :=
  { state with serverTime? := state.serverTime?.map (· + k) }

/-- The call when the clock is moved on, with a reply whose clock is. -/
def Call.shift (k : UInt32) : Call → Call
  | .start nonce now => .start nonce (now + k)
  | .verify reply now => .verify (reply.shift k) (now + k)

/-- The answer with the clock of its packet moved on. A fault stays as it is. -/
def Answer.shift (k : UInt32) : Answer → Answer
  | .opening result => .opening (result.map (Handshake.shift k))
  | .verdict result => .verdict (result.map (Outcome.shift k))

/-- The call and its answer with their clocks moved on. -/
def Event.shift (k : UInt32) (event : Event) : Event :=
  ⟨event.call.shift k, event.answer.shift k⟩

/-! ## Differences -/

namespace State

variable (k : UInt32)

theorem difference_shift (later earlier : UInt32) :
    difference (later + k) (earlier + k) = difference later earlier := by
  unfold difference
  rw [add_sub_add_right_eq_sub]

/-- How far a reply is behind does not change when its clock and the server's are moved on. -/
theorem behind_shift (reply : Handshake) (now : UInt32) :
    difference (now + k) ((reply.shift k).time + (reply.shift k).delta) =
      difference now (reply.time + reply.delta) := by
  have hsum : (reply.shift k).time + (reply.shift k).delta = reply.time + reply.delta + k :=
    add_right_comm reply.time k reply.delta
  rw [hsum, difference_shift]

/-! ## One call -/

theorem start_shift (state : State) (nonce now : UInt32) :
    (state.shift k).start nonce (now + k) =
      ((state.start nonce now).1.map (Handshake.shift k), (state.start nonce now).2.shift k) := by
  by_cases hopen : state.isHandshaking = true
  · have hshifted : (state.shift k).isHandshaking = true := hopen
    rw [start_of_open nonce now hopen, start_of_open nonce (now + k) hshifted]
    rfl
  · have hshifted : ¬(state.shift k).isHandshaking = true := hopen
    rw [start_of_closed nonce now hopen, start_of_closed nonce (now + k) hshifted]
    rfl

/-- A reply is judged by differences: whether the clocks agree, and which delta comes next. -/
theorem verify_shift (settings : HandshakeSettings) (state : State) (reply : Handshake)
    (now : UInt32) :
    (state.shift k).verify (reply.shift k) (now + k) settings =
      ((state.verify reply now settings).1.map (Outcome.shift k),
        (state.verify reply now settings).2.shift k) := by
  obtain ⟨nonce?, serverTime?, isHandshaking, tries⟩ := state
  have hdelta : difference (now + k) (reply.shift k).time = difference now reply.time :=
    difference_shift k now reply.time
  cases isHandshaking with
  | false => rfl
  | true =>
    cases nonce? with
    | none => rfl
    | some nonce =>
      unfold verify
      dsimp only [shift]
      rw [behind_shift, hdelta]
      show (if reply.nonce ≠ nonce then _ else _) = _
      split_ifs <;> rfl

/-- One call gives the same answer wherever the clocks stand. -/
theorem apply_shift (settings : HandshakeSettings) (state : State) (call : Call) :
    (state.shift k).apply settings (call.shift k) =
      ((state.apply settings call).1.shift k, (state.apply settings call).2.shift k) := by
  cases call with
  | start nonce now =>
    show ((state.shift k).start nonce (now + k)).map _ _ = _
    rw [start_shift]
    rfl
  | verify reply now =>
    show ((state.shift k).verify (reply.shift k) (now + k) settings).map _ _ = _
    rw [verify_shift]
    rfl

end State

/-! ## Runs -/

theorem observe_shift (settings : HandshakeSettings) (k : UInt32) (past : List Event × State)
    (call : Call) :
    observe settings (past.1.map (Event.shift k), past.2.shift k) (call.shift k) =
      ((observe settings past call).1.map (Event.shift k),
        (observe settings past call).2.shift k) := by
  unfold observe
  rw [State.apply_shift]
  rfl

theorem foldl_observe_shift (settings : HandshakeSettings) (k : UInt32) (calls : List Call)
    (past : List Event × State) :
    (calls.map (Call.shift k)).foldl (observe settings)
        (past.1.map (Event.shift k), past.2.shift k) =
      ((calls.foldl (observe settings) past).1.map (Event.shift k),
        (calls.foldl (observe settings) past).2.shift k) := by
  induction calls generalizing past with
  | nil => rfl
  | cons call calls ih =>
    rw [List.map_cons, List.foldl_cons, List.foldl_cons, observe_shift]
    exact ih (observe settings past call)

/-- A handshake behaves the same wherever its clock stands: when the clock of the server and the
clocks of all replies are moved on by a constant, every call gets the same answer, with the same
nonce and delta or the same fault, and the same state is left, but for the clocks in them, which are
moved on by the constant. -/
theorem run_shift (settings : HandshakeSettings) (k : UInt32) (calls : List Call) :
    run settings (calls.map (Call.shift k)) =
      ((run settings calls).1.map (Event.shift k), (run settings calls).2.shift k) :=
  foldl_observe_shift settings k calls ([], {})

end Handshake

end PacketWire
