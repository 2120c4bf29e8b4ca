import PacketWire.Bytes
import PacketWire.Schema.Primitive

/-!
# Scalars

A scalar is a primitive type together with the bits that type carries. Integers are read from the
bits as unsigned or two's complement numbers; the bits of an IEEE number are kept as they are, so
that every one of them survives.

* `ofBytes_toBytes`: a scalar is read back from its bytes.
* `length_toBytes`: a scalar takes its type's width.
* `agrees_symm`, `agrees_self_iff`: the equality of IEEE 754, in which no NaN equals itself.
-/

namespace PacketWire

/-- A value of a primitive type. -/
structure Scalar where
  type : Primitive
  bits : BitVec type.bitWidth
  deriving DecidableEq, Repr

namespace Scalar

/-- The scalar whose bits are those of a natural number, cut to the type's width. -/
def ofNat (type : Primitive) (n : Nat) : Scalar := ⟨type, BitVec.ofNat _ n⟩

/-- The scalar whose bits are those of an integer in two's complement, cut to the type's width. -/
def ofInt (type : Primitive) (i : Int) : Scalar := ⟨type, BitVec.ofInt _ i⟩

def ofBool (b : Bool) : Scalar := ⟨.bool, BitVec.ofBool b⟩

/-- A count as an integer of the given type, if it is one. -/
def ofCount? (type : Primitive) (count : Nat) : Option Scalar :=
  if count < type.countLimit then some (ofNat type count) else none

/-- The number an integer scalar stands for. -/
def toInt? (s : Scalar) : Option Int :=
  if !s.type.isInteger then none
  else if s.type.isSigned then some s.bits.toInt
  else some s.bits.toNat

/-! ## On the wire -/

/-- The bytes of a scalar, lowest first; a boolean is a byte that is zero or one. -/
def toBytes (s : Scalar) : Bytes := Bytes.littleEndian s.type.width s.bits.toNat

/-- The scalar of a type that some bytes stand for; any byte but zero is a true boolean. -/
def ofBytes (type : Primitive) (raw : Bytes) : Scalar :=
  match type with
  | .bool => ofBool (Bytes.ofLittleEndian raw != 0)
  | type => ofNat type (Bytes.ofLittleEndian raw)

@[simp]
theorem length_toBytes (s : Scalar) : s.toBytes.length = s.type.width := by
  simp [toBytes]

@[simp]
theorem type_ofBytes (type : Primitive) (raw : Bytes) : (ofBytes type raw).type = type := by
  cases type <;> rfl

theorem ofBytes_toBytes (s : Scalar) : ofBytes s.type s.toBytes = s := by
  obtain ⟨type, bits⟩ := s
  have hlt : bits.toNat < Bytes.range type.width :=
    Nat.lt_of_lt_of_le bits.isLt (by
      rw [Bytes.range, Nat.one_shiftLeft]
      exact Nat.pow_le_pow_right (by decide) type.bitWidth_le)
  have hread : Bytes.ofLittleEndian (toBytes ⟨type, bits⟩) = bits.toNat := by
    simp only [toBytes, Bytes.ofLittleEndian_littleEndian]
    exact Nat.mod_eq_of_lt hlt
  cases type with
  | bool =>
    simp only [ofBytes, hread, ofBool]
    congr 1
    have hb : bits.toNat < 2 := bits.isLt
    apply BitVec.eq_of_toNat_eq
    have hcases : bits.toNat = 0 ∨ bits.toNat = 1 := by omega
    rcases hcases with h | h
    · rw [h]; exact h.symm
    · rw [h]; exact h.symm
  | _ => simp only [ofBytes, hread, ofNat, BitVec.ofNat_toNat, BitVec.setWidth_eq]

/-! ## Equality of numbers -/

/-- For an IEEE type, the bits of the number without its sign, and the bits of infinity. -/
def magnitude? (s : Scalar) : Option (Nat × Nat) :=
  match s.type with
  | .f32 => some (s.bits.toNat % 0x80000000, 0x7f800000)
  | .f64 => some (s.bits.toNat % 0x8000000000000000, 0x7ff0000000000000)
  | _ => none

/-- Whether the scalar is an IEEE NaN, whose magnitude is above infinity. -/
def isNaN (s : Scalar) : Bool :=
  match s.magnitude? with
  | some (magnitude, infinity) => infinity < magnitude
  | none => false

/-- Whether the scalar is an IEEE zero of either sign. -/
def isFloatZero (s : Scalar) : Bool :=
  match s.magnitude? with
  | some (magnitude, _) => magnitude == 0
  | none => false

/-- Equality as IEEE 754 has it: two zeros are equal whatever their signs, a NaN equals nothing;
scalars of other types are equal when their bits are. Different types are never equal. -/
def agrees (a b : Scalar) : Bool :=
  a.type == b.type && !a.isNaN && !b.isNaN &&
    (a.bits.toNat == b.bits.toNat || (a.isFloatZero && b.isFloatZero))

theorem agrees_symm (a b : Scalar) : a.agrees b = b.agrees a := by
  have hcomm : ∀ x y : Bool, (x && y) = (y && x) := Bool.and_comm
  unfold agrees
  rw [show (a.type == b.type) = (b.type == a.type) from BEq.comm,
    show (a.bits.toNat == b.bits.toNat) = (b.bits.toNat == a.bits.toNat) from BEq.comm,
    hcomm a.isFloatZero, Bool.and_assoc, Bool.and_assoc, Bool.and_assoc, Bool.and_assoc,
    ← Bool.and_assoc (!a.isNaN), hcomm (!a.isNaN), Bool.and_assoc]

theorem agrees_self_iff (a : Scalar) : a.agrees a = true ↔ a.isNaN = false := by
  simp [agrees]

end Scalar

end PacketWire
