import PacketWire.Offset
import PacketWire.Schema.Field

/-!
# Layouts

A layout is a list of fields, each with the place it takes on the wire and the way it is written
there. Layouts nest: a field may hold a struct or an array of structs, each with a layout of its
own whose offsets start from zero again.

What follows from a field's codec alone (its fixed width, its element size, its run-time span) is
computed from the codec; what needs the neighbours (its offset, the fields it counts) is stored in
its slot.
-/

namespace PacketWire

/-- The width of a text (`StringWidth`). -/
inductive TextWidth where
  /-- As many bytes as this, the text padded with zeros. -/
  | fixed (bytes : Nat)
  /-- As many bytes as the source field counts, and one more for the terminator. -/
  | counted (source : Nat)
  deriving DecidableEq, Repr

/-- How the elements of an array are written; `Nested` is the layout of a struct. -/
inductive ElementCodec (Nested : Type) where
  | scalar (type : Primitive)
  | struct (layout : Nested)

/-- How a field is written; `Nested` is the layout of a struct. -/
inductive FieldCodec (Nested : Type) where
  /-- A scalar, or an enumeration as the scalar behind it. -/
  | scalar (type : Primitive)
  | text (width : TextWidth)
  /-- A fixed number of elements. -/
  | array (element : ElementCodec Nested) (length : Nat)
  /-- As many elements as the source field counts. -/
  | list (element : ElementCodec Nested) (source : Nat)
  | struct (layout : Nested)

/-- A field's place among its neighbours. -/
structure Slot where
  name : String
  offset : Offset
  binding : Binding
  /-- The index in declaration order. -/
  declared : Nat
  /-- The later fields whose length this field carries. -/
  dependents : List Nat
  deriving DecidableEq, Repr

/-- A field's place and the way it is written (`FieldLayout`). -/
structure FieldLayout (Nested : Type) extends Slot where
  codec : FieldCodec Nested

/-- The wire layout of a packet's body or of a struct. -/
structure Layout where
  name : String
  /-- Where the first field sits: behind the header of a packet, at zero in a struct. -/
  start : Nat
  /-- The fields in wire order. -/
  fields : List (FieldLayout Layout)
  /-- The position behind the last field. -/
  stop : Offset
  /-- The indices of the fields in the order in which a decoded record lists them. -/
  buildOrder : List Nat

/-- Whether the field carries the length of others (`is_size_field`). -/
def Slot.isSizeField (slot : Slot) : Bool := !slot.dependents.isEmpty

namespace Layout

/-- The bytes taken whatever the values, those in front of the first field included. -/
def staticSize (layout : Layout) : Nat := layout.stop.constant

/-- Whether the length depends on the values (`is_dynamic`). -/
def isDynamic (layout : Layout) : Bool := !layout.stop.isStatic

/-- The field of a given name (`field`). -/
def field? (layout : Layout) (name : String) : Option (FieldLayout Layout) :=
  layout.fields.find? (·.name == name)

end Layout

/-- Bytes of one element (`size`). -/
def ElementCodec.size : ElementCodec Layout → Nat
  | .scalar type => type.width
  | .struct layout => layout.staticSize

/-- Whether the elements are single bytes, so that the array is a byte string (`is_bytes`). -/
def ElementCodec.isByte : ElementCodec Layout → Bool
  | .scalar .u8 => true
  | _ => false

namespace FieldCodec

/-- Bytes of one element, or of the whole field where it is no collection. -/
def elementSize : FieldCodec Layout → Nat
  | scalar type => type.width
  | text _ => 1
  | array element _ | list element _ => element.size
  | struct layout => layout.staticSize

/-- Bytes taken whatever the values. -/
def staticWidth : FieldCodec Layout → Nat
  | scalar type => type.width
  | text (.fixed bytes) => bytes
  | text (.counted _) => 1
  | array element length => element.size * length
  | list _ _ => 0
  | struct layout => layout.staticSize

/-- Where the bytes beyond the fixed ones come from, if there are any. -/
def span? : FieldCodec Layout → Option Span
  | text (.counted source) => some (.counted source 1)
  | list element source => some (.counted source element.size)
  | struct layout => if layout.isDynamic then some .nested else none
  | scalar _ | text (.fixed _) | array _ _ => none

/-- The field that carries this field's length. -/
def source? (codec : FieldCodec Layout) : Option Nat :=
  match codec.span? with
  | some (.counted source _) => some source
  | _ => none

end FieldCodec

end PacketWire
