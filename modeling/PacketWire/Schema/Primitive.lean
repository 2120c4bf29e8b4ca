/-!
# Primitive types

The eleven scalar types that a packet field can hold, with their width on the wire and the number
of bits that carry information. A boolean takes a whole byte and carries one bit.
-/

namespace PacketWire

/-- A scalar type: a boolean, an integer of one of eight kinds, or an IEEE 754 number. -/
inductive Primitive where
  | bool
  | u8
  | i8
  | u16
  | i16
  | u32
  | i32
  | u64
  | i64
  | f32
  | f64
  deriving DecidableEq, Repr

namespace Primitive

/-- Bytes on the wire (`width`). -/
def width : Primitive → Nat
  | bool | u8 | i8 => 1
  | u16 | i16 => 2
  | u32 | i32 | f32 => 4
  | u64 | i64 | f64 => 8

/-- Bits that carry information: all of them, but for a boolean, which has one. -/
def bitWidth : Primitive → Nat
  | bool => 1
  | u8 | i8 => 8
  | u16 | i16 => 16
  | u32 | i32 | f32 => 32
  | u64 | i64 | f64 => 64

/-- The name by which schemas and messages refer to the type (`name`). -/
def name : Primitive → String
  | bool => "bool"
  | u8 => "u8"
  | i8 => "i8"
  | u16 => "u16"
  | i16 => "i16"
  | u32 => "u32"
  | i32 => "i32"
  | u64 => "u64"
  | i64 => "i64"
  | f32 => "f32"
  | f64 => "f64"

/-- Every primitive type. -/
def all : List Primitive :=
  [bool, u8, i8, u16, i16, u32, i32, u64, i64, f32, f64]

/-- The primitive type of a given name. -/
def ofName? (name : String) : Option Primitive :=
  all.find? (·.name == name)

/-- Whether negative numbers belong to the type. -/
def isSigned : Primitive → Bool
  | i8 | i16 | i32 | i64 => true
  | _ => false

/-- Whether the type is an integer type, signed or unsigned (`is_integer`). -/
def isInteger : Primitive → Bool
  | bool | f32 | f64 => false
  | _ => true

/-- The least count that is too large for the type; no count fits a type that is not an integer
type. -/
def countLimit (p : Primitive) : Nat :=
  if !p.isInteger then 0
  else if p.isSigned then 1 <<< (p.bitWidth - 1)
  else 1 <<< p.bitWidth

theorem width_pos (p : Primitive) : 0 < p.width := by
  cases p <;> decide

theorem bitWidth_le (p : Primitive) : p.bitWidth ≤ 8 * p.width := by
  cases p <;> decide

end Primitive

end PacketWire
