/-!
# Clocks

A clock counts milliseconds modulo `2 ^ 32`. A clock set by hand shows what it was set to; any
clock, for a program that reads it, is the sequence of its readings, of which one may fail.
-/

namespace PacketWire

/-- A clock that stands still until it is set or moved. -/
structure ManualClock where
  now : UInt32
  deriving DecidableEq, Repr

namespace ManualClock

def set (_ : ManualClock) (ms : UInt32) : ManualClock := ⟨ms⟩

/-- Moves the clock on, past its end to the beginning (`advance`). -/
def advance (clock : ManualClock) (ms : UInt32) : ManualClock := ⟨clock.now + ms⟩

end ManualClock

/-- What each reading of a clock shows, by the number of readings before; a reading that fails
shows nothing. -/
abbrev Clock := Nat → Option UInt32

namespace Clock

/-- A clock that always shows the same. -/
def constant (now : UInt32) : Clock := fun _ => some now

/-- A clock that fails at one reading. -/
def failingAt (clock : Clock) (reading : Nat) : Clock :=
  fun n => if n = reading then none else clock n

end Clock

end PacketWire
