/-!
# Sizes

Lengths, offsets and counts are natural numbers, and the ones a running program can hold lie below
`2 ^ 64`. Where a length or a count comes out of a packet, a sum or product with it is taken in one
of two ways: checked, where leaving the range is an outcome of its own, or saturating, where the
result stops at the largest size.

The sizes that a schema alone decides are exact: static widths, the constant part of an offset, the
static size of a layout and of a packet (`FieldCodec.staticWidth`, `Cursor.place`,
`Descriptor.staticSize`). The program adds and multiplies them as machine words and checks nothing,
so for a schema whose fixed part alone takes `2 ^ 64` bytes or more the two differ.

Here and in the other modules, a name in parentheses at the head of a definition, such as
(`checked_add`), is what the program calls that function or type.

* `add?_eq_some_iff`, `mul?_eq_some_iff`: checked arithmetic answers exactly when the exact result
  fits, and then with the exact result.
* `le_addSat_iff`: a size below the largest one is at least `addSat a b` iff it is at least the
  exact sum.
-/

namespace PacketWire.Size

/-- The number of sizes there are: one more than the largest. -/
def limit : Nat := 0x1_0000_0000_0000_0000

/-- The number of 32-bit words there are: one more than the largest. -/
def wordLimit : Nat := 0x1_0000_0000

/-- The largest size. -/
def largest : Nat := limit - 1

/-- The sum, unless it is too large to be a size (`checked_add`). -/
def add? (a b : Nat) : Option Nat :=
  if a + b < limit then some (a + b) else none

/-- The product, unless it is too large to be a size (`checked_mul`). -/
def mul? (a b : Nat) : Option Nat :=
  if a * b < limit then some (a * b) else none

/-- The sum, or the largest size where the sum is too large to be one (`saturating_add`). -/
def addSat (a b : Nat) : Nat :=
  min (a + b) largest

theorem add?_eq_some_iff {a b c : Nat} : add? a b = some c ↔ a + b = c ∧ c < limit := by
  unfold add?
  split <;> simp <;> omega

theorem add?_eq_none_iff {a b : Nat} : add? a b = none ↔ limit ≤ a + b := by
  unfold add?
  split <;> simp <;> omega

theorem mul?_eq_some_iff {a b c : Nat} : mul? a b = some c ↔ a * b = c ∧ c < limit := by
  unfold mul?
  split
  · next h => simp only [Option.some.injEq]; constructor <;> rintro h' <;> simp_all
  · next h => simp only [reduceCtorEq, false_iff]; rintro ⟨rfl, h'⟩; exact h h'

theorem le_addSat_iff {a b n : Nat} (h : n < largest) : addSat a b ≤ n ↔ a + b ≤ n := by
  unfold addSat
  omega

end PacketWire.Size
