/-!
# Digits

Digits of bases up to sixteen, letters in either case.

* `value?_lt`: a digit is below its base.
-/

namespace PacketWire.Digit

/-- The value of a digit in a base up to sixteen. -/
def value? (base : Nat) (c : Char) : Option Nat :=
  let value :=
    if c.isDigit then some (c.toNat - '0'.toNat)
    else if 'a' ≤ c ∧ c ≤ 'f' then some (c.toNat - 'a'.toNat + 10)
    else if 'A' ≤ c ∧ c ≤ 'F' then some (c.toNat - 'A'.toNat + 10)
    else none
  value.filter (· < base)

/-- Whether a character is a digit of a base. -/
def isDigit (base : Nat) (c : Char) : Bool := (value? base c).isSome

/-- The number that digits stand for, the first digit counting most. -/
def number (base : Nat) (digits : List Char) : Nat :=
  digits.foldl (fun n c => n * base + (value? base c).getD 0) 0

theorem value?_lt {base n : Nat} {c : Char} (h : value? base c = some n) : n < base := by
  simpa using (Option.filter_eq_some_iff.mp h).2

end PacketWire.Digit
