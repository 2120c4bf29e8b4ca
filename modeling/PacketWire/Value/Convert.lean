import PacketWire.Codec.Access

/-!
# Values in a wanted form

What a program wants of a field is a form: a scalar type, a text, a record, a byte string, or
whatever is there. Converting keeps a value that has the form and refuses any other; a byte string
may also come as an array of bytes. Taking a field removes it from the record, whether or not the
conversion then succeeds.
-/

namespace PacketWire

/-- What a program wants a value to be. -/
inductive Form where
  | scalar (type : Primitive)
  | text
  | record
  | bytes
  /-- A byte string of exactly this length. -/
  | bytesOf (length : Nat)
  | any
  deriving DecidableEq, Repr

namespace Value

/-- A scalar of the wanted type. -/
def toScalar (field : String) (type : Primitive) (value : Value) :
    Except CodecError (BitVec type.bitWidth) :=
  match value with
  | scalar s => if h : s.type = type then .ok (h ▸ s.bits) else .error (value.mismatch field type.name)
  | _ => .error (value.mismatch field type.name)

/-- A byte string, or an array of bytes as one. -/
def toBytes (field : String) : Value → Except CodecError Bytes
  | bytes b => .ok b
  | array items => items.mapM fun item => return UInt8.ofBitVec (← item.toScalar field .u8)
  | other => .error (other.mismatch field "bytes")

/-- The value in the wanted form (`from_value`). -/
def convert (field : String) (form : Form) (value : Value) : Except CodecError Value :=
  match form with
  | .scalar type => return scalar ⟨type, ← value.toScalar field type⟩
  | .text =>
    match value with
    | text s => .ok (text s)
    | other => .error (other.mismatch field "String")
  | .record =>
    match value with
    | record fields => .ok (record fields)
    | other => .error (other.mismatch field "Record")
  | .bytes => return bytes (← value.toBytes field)
  | .bytesOf length => do
    let b ← value.toBytes field
    if b.length = length then .ok (bytes b) else .error (.arrayLength field b.length length)
  | .any => .ok value

end Value

/-- Values with a form as a record, such as the structs of a program (`WireStruct`). -/
class RecordForm (α : Type) where
  toRecord : α → Record
  ofRecord : Record → Except CodecError α

namespace Record

/-- The value of a field in the wanted form (`get_as`). -/
def getAs (record : Record) (name : String) (form : Form) : Except CodecError Value := do
  (← record.require name).convert name form

/-- Takes a field in the wanted form (`take_as`). -/
def takeAs (record : Record) (name : String) (form : Form) : Except CodecError Value × Record :=
  (record.getAs name form, record.erase name)

/-- Takes an array field with every element in the wanted form (`take_list`). -/
def takeList (record : Record) (name : String) (form : Form) :
    Except CodecError (List Value) × Record :=
  let items : Except CodecError (List Value) := do
    match ← record.require name with
    | .array items => return items
    | .bytes b => return b.map Value.u8
    | other => throw (other.mismatch name "array")
  (do (← items).mapM (Value.convert name form), record.erase name)

/-- Takes a scalar field of the wanted type. -/
def takeScalar (record : Record) (name : String) (type : Primitive) :
    Except CodecError (BitVec type.bitWidth × Record) := do
  return (← (← record.require name).toScalar name type, record.erase name)

/-- Takes a field that holds a struct (`take_struct`). -/
def takeStruct (α : Type) [RecordForm α] (record : Record) (name : String) :
    Except CodecError α × Record :=
  let (value, rest) := record.takeAs name .record
  (do RecordForm.ofRecord (← (← value).asRecord name), rest)

/-- Takes a field that holds an array of structs (`take_structs`). -/
def takeStructs (α : Type) [RecordForm α] (record : Record) (name : String) :
    Except CodecError (List α) × Record :=
  let (values, rest) := record.takeList name .record
  (do (← values).mapM fun value => do RecordForm.ofRecord (← value.asRecord name), rest)

end Record

end PacketWire
