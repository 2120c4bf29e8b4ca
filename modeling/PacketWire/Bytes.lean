/-!
# Byte strings

A byte string is a list of bytes. A buffer is a byte string that is read and overwritten by
position; an access that would leave it answers `none`. Integers travel in little-endian order.

* `ofLittleEndian_littleEndian`: reading back what was written gives the number modulo
  `range width`.
* `length_splice?`: overwriting keeps the length of a buffer.
-/

namespace PacketWire

/-- A sequence of bytes, first byte first. -/
abbrev Bytes := List UInt8

namespace Bytes

/-! ## Little-endian integers -/

/-- The `width` lowest base-256 digits of a number, lowest first. -/
def littleEndian : Nat → Nat → Bytes
  | 0, _ => []
  | width + 1, n => UInt8.ofNat n :: littleEndian width (n / 256)

/-- The number whose base-256 digits these are, lowest first. -/
def ofLittleEndian : Bytes → Nat
  | [] => 0
  | b :: bs => b.toNat + 256 * ofLittleEndian bs

/-- How many numbers there are of so many bytes. -/
def range (width : Nat) : Nat := 1 <<< (8 * width)

theorem range_succ (width : Nat) : range (width + 1) = 256 * range width := by
  rw [range, range, Nat.one_shiftLeft, Nat.one_shiftLeft, Nat.mul_succ, Nat.pow_add, Nat.mul_comm]

@[simp]
theorem length_littleEndian (width n : Nat) : (littleEndian width n).length = width := by
  induction width generalizing n with
  | zero => rfl
  | succ width ih => simp [littleEndian, ih]

theorem ofLittleEndian_littleEndian (width n : Nat) :
    ofLittleEndian (littleEndian width n) = n % range width := by
  induction width generalizing n with
  | zero => simp [littleEndian, ofLittleEndian, range, Nat.mod_one]
  | succ width ih =>
    have hb : (UInt8.ofNat n).toNat = n % 256 := by simp
    rw [littleEndian, ofLittleEndian, ih, hb, range_succ]
    exact Nat.mod_mul.symm

theorem ofLittleEndian_lt (bs : Bytes) : ofLittleEndian bs < range bs.length := by
  induction bs with
  | nil => simp [ofLittleEndian, range]
  | cons b bs ih =>
    have hb := b.toNat_lt
    simp only [ofLittleEndian, List.length_cons, range_succ]
    omega

theorem littleEndian_ofLittleEndian (bs : Bytes) :
    littleEndian bs.length (ofLittleEndian bs) = bs := by
  induction bs with
  | nil => rfl
  | cons b bs ih =>
    have hb := b.toNat_lt
    have hdiv : (b.toNat + 256 * ofLittleEndian bs) / 256 = ofLittleEndian bs := by omega
    have hmod : UInt8.ofNat (b.toNat + 256 * ofLittleEndian bs) = b := by
      apply UInt8.toNat_inj.mp
      simp only [UInt8.toNat_ofNat']
      omega
    simp only [List.length_cons, ofLittleEndian, littleEndian, hdiv, hmod, ih]

/-! ## Access by position -/

/-- The `width` bytes that start at `start`, if the buffer has them all. -/
def slice? (buf : Bytes) (start width : Nat) : Option Bytes :=
  if start + width ≤ buf.length then some ((buf.drop start).take width) else none

/-- The buffer with `src` written over the bytes that start at `start`, if it has room for all of
`src` there. -/
def splice? (buf : Bytes) (start : Nat) (src : Bytes) : Option Bytes :=
  if start + src.length ≤ buf.length then
    some (buf.take start ++ src ++ buf.drop (start + src.length))
  else none

theorem length_slice? {buf out : Bytes} {start width : Nat} (h : slice? buf start width = some out) :
    out.length = width := by
  unfold slice? at h
  split at h
  · simp only [Option.some.injEq] at h
    subst h
    simp
    omega
  · cases h

theorem length_splice? {buf out src : Bytes} {start : Nat} (h : splice? buf start src = some out) :
    out.length = buf.length := by
  unfold splice? at h
  split at h
  · simp only [Option.some.injEq] at h
    subst h
    simp
    omega
  · cases h

end Bytes

end PacketWire
