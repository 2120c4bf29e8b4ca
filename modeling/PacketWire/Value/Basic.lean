import PacketWire.Value.Fields
import PacketWire.Value.Scalar

/-!
# Values and records

What a packet carries, outside its bytes: a record of named values. A value is a scalar, a text, a
byte string, an array of values or a record again.
-/

namespace PacketWire

/-- The content of a field. -/
inductive Value where
  | scalar (s : Scalar)
  | text (s : String)
  /-- An array of bytes, kept as a byte string. -/
  | bytes (b : Bytes)
  | array (items : List Value)
  | record (fields : Fields Value)

/-- Named values in insertion order. -/
abbrev Record := Fields Value

namespace Value

/-- What kind of value it is, in messages (`kind_name`). -/
def kindName : Value → String
  | scalar s => s.type.name
  | text _ => "string"
  | bytes _ => "bytes"
  | array _ => "array"
  | record _ => "record"

/-- The number an integer value stands for (`as_i128`). -/
def toInt? : Value → Option Int
  | scalar s => s.toInt?
  | _ => none

def bool (b : Bool) : Value := scalar (Scalar.ofBool b)

def u8 (n : UInt8) : Value := scalar ⟨.u8, n.toBitVec⟩

def u32 (n : UInt32) : Value := scalar ⟨.u32, n.toBitVec⟩

/-! ## Equality -/

mutual
/-- Equality of values, with scalars compared as numbers and records as maps. -/
def agrees : Value → Value → Bool
  | scalar a, scalar b => a.agrees b
  | text a, text b => a == b
  | bytes a, bytes b => a == b
  | array as, array bs => itemsAgree as bs
  | record ⟨as⟩, record b => as.length == b.size && entriesAgree as b
  | _, _ => false

/-- Whether two arrays have the same length and equal elements. -/
def itemsAgree : List Value → List Value → Bool
  | [], [] => true
  | a :: as, b :: bs => agrees a b && itemsAgree as bs
  | _, _ => false

/-- Whether every entry has an equal value under its name in the record. -/
def entriesAgree : List (String × Value) → Record → Bool
  | [], _ => true
  | (name, value) :: rest, other =>
    (match other.get? name with
      | some found => agrees value found
      | none => false) && entriesAgree rest other
end

end Value

namespace Record

/-- Whether two records hold the same names with equal values, in whatever order. -/
def agrees (a b : Record) : Bool :=
  a.size == b.size && Value.entriesAgree a.entries b

end Record

end PacketWire
