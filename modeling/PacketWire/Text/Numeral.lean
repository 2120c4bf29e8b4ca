/-!
# Decimal numerals

A numeral is a row of decimal digits, with a plus sign in front of it or not. Its digits are read
from the left, so that of a bad digit and a number that has grown too large the first one counts.

* `parse_ok_lt`: a number that is read is below its limit.
-/

namespace PacketWire.Numeral

/-- Why a text is no numeral. -/
inductive Error where
  | empty
  | invalidDigit
  | tooLarge
  deriving DecidableEq, Repr

/-- The fault in words. -/
def Error.message : Error → String
  | empty => "cannot parse integer from empty string"
  | invalidDigit => "invalid digit found in string"
  | tooLarge => "number too large to fit in target type"

/-- Appends digits to a number, which has to stay below a limit. -/
def extend (limit : Nat) : Nat → List Char → Except Error Nat
  | n, [] => .ok n
  | n, c :: rest =>
    if c.isDigit then
      let next := n * 10 + (c.toNat - '0'.toNat)
      if next < limit then extend limit next rest else .error .tooLarge
    else .error .invalidDigit

/-- The number below a limit that a text stands for. -/
def parse (limit : Nat) (s : String) : Except Error Nat :=
  match s.toList with
  | [] => .error .empty
  | ['+'] => .error .invalidDigit
  | '+' :: digits => extend limit 0 digits
  | digits => extend limit 0 digits

theorem extend_ok_lt {limit n m : Nat} {digits : List Char} (hn : n < limit)
    (h : extend limit n digits = .ok m) : m < limit := by
  induction digits generalizing n with
  | nil =>
    rw [extend] at h
    injection h with h
    exact h ▸ hn
  | cons c rest ih =>
    rw [extend] at h
    split at h
    · dsimp only at h
      split at h
      · next hlt => exact ih hlt h
      · simp at h
    · simp at h

theorem parse_ok_lt {limit m : Nat} {s : String} (hlimit : 0 < limit)
    (h : parse limit s = .ok m) : m < limit := by
  unfold parse at h
  split at h
  · simp at h
  · simp at h
  · exact extend_ok_lt hlimit h
  · exact extend_ok_lt hlimit h

end PacketWire.Numeral
