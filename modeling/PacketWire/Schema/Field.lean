import PacketWire.Schema.Primitive

/-!
# Fields of a schema

A field has a name, a kind and up to three modifiers: a length, the name of a sibling that carries
its length, and a position on the wire. `elementSize?` and `isDynamic` say what the declaration
alone tells about the field's width; the compiled layout has the last word.
-/

namespace PacketWire

/-- What an array holds (`Element`): scalars, or structs declared under a name. -/
inductive ElementKind where
  | scalar (type : Primitive)
  | struct (type : String)
  deriving DecidableEq, Repr

/-- The name of the element type (`element_name`). -/
def ElementKind.name : ElementKind → String
  | .scalar type => type.name
  | .struct type => type

/-- What a field holds. -/
inductive FieldKind where
  | scalar (type : Primitive)
  /-- A named enumeration, carried as the primitive behind it. -/
  | enumeration (name : String) (repr : Primitive)
  /-- ASCII text, of fixed width or counted by a sibling. -/
  | text
  /-- An array whose length is part of the declaration. -/
  | array (element : ElementKind)
  /-- An array whose length is counted by a sibling. -/
  | list (element : ElementKind)
  /-- A nested struct declared under a name. -/
  | struct (type : String)
  deriving DecidableEq, Repr

/-- The kind in words (`describe`). -/
def FieldKind.describe : FieldKind → String
  | scalar type => type.name
  | enumeration name repr => s!"enum {name}: {repr.name}"
  | text => "string"
  | array element => s!"[{element.name}; N]"
  | list element => s!"[{element.name}]"
  | struct type => type

/-- The integer type behind a field that may count others: an integer scalar, or an enumeration
backed by one. -/
def FieldKind.counter? : FieldKind → Option Primitive
  | scalar type => if type.isInteger then some type else none
  | enumeration _ repr => if repr.isInteger then some repr else none
  | _ => none

/-- How a decoded record hands the field on. Constructor-bound fields come first, in declaration
order; the wire layout is the same for all three. -/
inductive Binding where
  | property
  | readonly
  | recordParameter
  deriving DecidableEq, Repr

def Binding.name : Binding → String
  | property => "property"
  | readonly => "readonly"
  | recordParameter => "record_parameter"

/-- Whether the field is supplied when the value is constructed (`is_constructor`). -/
def Binding.isConstructor : Binding → Bool
  | .property => false
  | .readonly | .recordParameter => true

/-- One field of a packet or struct (`FieldDescriptor`). -/
structure Field where
  name : String
  kind : FieldKind
  /-- Elements of a fixed array, or bytes of a fixed-width text. -/
  length : Option Nat := none
  /-- The sibling that carries the number of elements or characters. -/
  sizedBy : Option String := none
  /-- The index on the wire, where it differs from declaration order. -/
  position : Option Nat := none
  binding : Binding := .property
  deriving DecidableEq, Repr

namespace Field

/-- The width of one element, where the declaration alone tells it (`element_size`). -/
def elementSize? (field : Field) : Option Nat :=
  match field.kind with
  | .scalar type | .enumeration _ type => some type.width
  | .array (.scalar type) | .list (.scalar type) => some type.width
  | .text => some 1
  | .array (.struct _) | .list (.struct _) | .struct _ => none

/-- Whether the declaration alone says that the width depends on a value at run time
(`is_dynamic`). -/
def isDynamic (field : Field) : Bool :=
  match field.kind with
  | .list _ => true
  | .text => field.length.isNone
  | _ => false

end Field

end PacketWire
