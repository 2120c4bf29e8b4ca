import PacketWire.Error
import PacketWire.Packet.Control

/-!
# Agreeing on the clock

The server opens with a nonce and its clock. The client answers with the nonce, its own view of the
clock and the delta it added. The server accepts when its clock is ahead of `time + delta` by no
more than the tolerance; otherwise it proposes half of the observed difference as the next delta and
asks again, up to a limit. Clocks count milliseconds modulo `2 ^ 32`, so a difference is taken in
that arithmetic and read as a signed number.
-/

namespace PacketWire

/-- A length of time, in microseconds. -/
structure Duration where
  micros : Nat
  deriving DecidableEq, Repr

namespace Duration

def ofMillis (ms : Nat) : Duration := ⟨ms * 1000⟩

/-- Whole milliseconds. -/
def millis (d : Duration) : Nat := d.micros / 1000

end Duration

/-- How far clocks may disagree and how long a handshake may take (`HandshakeConfig`). -/
structure HandshakeSettings where
  /-- The largest accepted difference, in milliseconds. -/
  toleranceMs : UInt32 := 50
  /-- The number of replies after which an unsettled handshake is given up. -/
  maxAttempts : UInt32 := 8
  /-- How long the whole handshake may take. -/
  timeout : Duration := .ofMillis 10000
  deriving DecidableEq, Repr

namespace Handshake

/-- The handshake of one session (`HandshakeState`). -/
structure State where
  /-- The nonce of the opening packet. -/
  nonce? : Option UInt32 := none
  /-- The clock in the last packet sent. -/
  serverTime? : Option UInt32 := none
  /-- Whether a reply is awaited. -/
  isHandshaking : Bool := false
  /-- The counter of replies that settled nothing, since the last opening. -/
  tries : UInt32 := 0
  deriving DecidableEq, Repr

/-- What a reply leads to (`HandshakeOutcome`). -/
inductive Outcome where
  /-- The clocks agree. -/
  | complete
  /-- They do not; this packet asks for another reply. -/
  | retry (next : Handshake)
  deriving DecidableEq, Repr

namespace State

/-- The replies that settled nothing, since the last opening (`attempts`). -/
def attempts (state : State) : Nat := state.tries.toNat

/-- A handshake that was opened when the clock showed `now`. -/
def opened (nonce now : UInt32) : State where
  nonce? := some nonce
  serverTime? := some now
  isHandshaking := true

/-- Opens a handshake (`start`): the packet to send. -/
def start (state : State) (nonce now : UInt32) : Except HandshakeError Handshake × State :=
  if state.isHandshaking then (.error .alreadyStarted, state)
  else (.ok ⟨nonce, now, 0⟩, opened nonce now)

/-- How far a clock is ahead of another, as a signed number. -/
def difference (later earlier : UInt32) : Int := (later - earlier).toBitVec.toInt

/-- Judges a reply that arrives when the clock shows `now` (`verify`). -/
def verify (state : State) (reply : Handshake) (now : UInt32) (settings : HandshakeSettings) :
    Except HandshakeError Outcome × State :=
  match state.isHandshaking, state.nonce? with
  | true, some nonce =>
    if reply.nonce ≠ nonce then (.error .nonceMismatch, state)
    else
      let behind := difference now (reply.time + reply.delta)
      if 0 ≤ behind ∧ behind ≤ settings.toleranceMs.toNat then
        (.ok .complete, { state with nonce? := none, serverTime? := none, isHandshaking := false })
      else
        let delta := (difference now reply.time).tdiv 2
        if delta < 0 then (.error .negativeDelta, state)
        else
          let tries := state.tries + 1
          if settings.maxAttempts ≤ tries then (.error .notConverged, { state with tries })
          else
            (.ok (.retry ⟨nonce, now, .ofNat delta.toNat⟩),
              { state with serverTime? := some now, tries })
  | _, _ => (.error .notStarted, state)

end State

end Handshake

end PacketWire
