import PacketWire.Codec.Access

/-!
# Reading a record out of a buffer

Fields are read in wire order. Each is found by its offset, under the spans of the fields read
before it; the size fields among those give the counts. The values then go into a record in the
layout's build order.
-/

namespace PacketWire.Layout

open Codec

/-- Reads `width` bytes as text (`read_string`): what stands before the first zero among the first
`limit`. -/
def readText (buf : Bytes) (position width limit : Nat) : Except CodecError String := do
  ensure buf (Size.addSat position width)
  let raw ← slice buf position (min limit width)
  return Utf8.decodeLossy (raw.takeWhile (· != 0))

/-- Refuses a buffer that ends before the last of `count` elements. -/
def ensureElements (buf : Bytes) (position count size : Nat) : Except CodecError Unit :=
  let stop := (Size.mul? count size).bind (Size.add? position)
  ensure buf (stop.getD Size.largest)

/-- Reads an array of scalars; an array of bytes is a byte string. -/
def readScalars (type : Primitive) (buf : Bytes) (position count : Nat) :
    Except CodecError Value := do
  ensureElements buf position count type.width
  match type with
  | .u8 => return .bytes (← slice buf position count)
  | type =>
    let items ← (List.range count).mapM fun k => readScalar type buf (position + k * type.width)
    return .array (items.map .scalar)

/-- A record of the values of all fields, in build order. -/
def assembleRecord (names : List String) (buildOrder : List Nat) (values : List Value) : Record :=
  buildOrder.foldl (fun record i =>
    match names[i]?, values[i]? with
    | some name, some value => record.set name value
    | _, _ => record) Fields.empty

mutual
/-- Reads a record with the layout starting at `base` (`decode_from`): the record and the bytes it
spans. -/
def decodeFrom : Layout → Bytes → Nat → Except CodecError (Record × Nat)
  | ⟨name, _, fields, stop, buildOrder⟩, buf, base => do
    let (values, spans) ← decodeFields fields buf base [] []
    let length ← locate name 0 stop spans
    return (assembleRecord (fields.map (·.name)) buildOrder values, length)

/-- Reads a list of fields, given the spans and counts of the fields before them: their values, and
the spans of all. -/
def decodeFields : List (FieldLayout Layout) → Bytes → Nat → List Nat → List Nat →
    Except CodecError (List Value × List Nat)
  | [], _, _, spans, _ => .ok ([], spans)
  | ⟨slot, codec⟩ :: rest, buf, base, spans, counts => do
    let position ← locate slot.name base slot.offset spans
    let (value, span) ← decodeField codec slot.name buf position counts
    let count ← if slot.isSizeField then countOf slot.name value else .ok 0
    let (values, spans) ← decodeFields rest buf base (spans ++ [span]) (counts ++ [count])
    return (value :: values, spans)

/-- Reads one field: its value and its run-time span. -/
def decodeField : FieldCodec Layout → String → Bytes → Nat → List Nat →
    Except CodecError (Value × Nat)
  | .scalar type, _, buf, position, _ => do
    return (.scalar (← readScalar type buf position), 0)
  | .text (.fixed width), _, buf, position, _ => do
    return (.text (← readText buf position width width), 0)
  | .text (.counted source), _, buf, position, counts => do
    let count := counts.getD source 0
    return (.text (← readText buf position (Size.addSat count 1) count), count)
  | .array element length, _, buf, position, _ => do
    return (← decodeElements element buf position length, 0)
  | .list element source, field, buf, position, counts => do
    let count := counts.getD source 0
    let span ← scaled field count element.size
    return (← decodeElements element buf position count, span)
  | .struct layout, _, buf, position, _ => do
    let (inner, length) ← decodeFrom layout buf position
    return (.record inner, ← spanOf layout length)

/-- Reads the elements of an array (`read_elements`). -/
def decodeElements : ElementCodec Layout → Bytes → Nat → Nat → Except CodecError Value
  | .scalar type, buf, position, count => readScalars type buf position count
  | .struct layout, buf, position, count => do
    ensureElements buf position count layout.staticSize
    let items ← (List.range count).mapM fun k =>
      decodeFrom layout buf (position + k * layout.staticSize)
    return .array (items.map fun item => .record item.1)
end

end PacketWire.Layout
