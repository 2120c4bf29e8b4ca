import PacketWire.Codec.Access

/-!
# Measuring a record in a buffer

The length of a record is known once its size fields are there, so nothing else is read. Where the
buffer ends before a size field, the length is not known yet.
-/

namespace PacketWire.Layout

open Codec

mutual
/-- The bytes that the record at `base` spans, once the buffer tells (`measure`). -/
def measure : Layout → Bytes → Nat → Except CodecError (Option Nat)
  | ⟨name, _, fields, stop, _⟩, buf, base => do
    match ← measureFields fields buf base [] [] with
    | some spans => return some (← locate name 0 stop spans)
    | none => return none

/-- The spans of a list of fields behind those of the fields before them, once the buffer tells. -/
def measureFields : List (FieldLayout Layout) → Bytes → Nat → List Nat → List Nat →
    Except CodecError (Option (List Nat))
  | [], _, _, spans, _ => .ok (some spans)
  | ⟨slot, codec⟩ :: rest, buf, base, spans, counts => do
    let position ← locate slot.name base slot.offset spans
    match ← measureField codec slot buf position counts with
    | some (span, count) => measureFields rest buf base (spans ++ [span]) (counts ++ [count])
    | none => return none

/-- The span of one field and the count it carries, once the buffer tells. -/
def measureField : FieldCodec Layout → Slot → Bytes → Nat → List Nat →
    Except CodecError (Option (Nat × Nat))
  | .scalar type, slot, buf, position, _ =>
    if !slot.isSizeField then .ok (some (0, 0))
    else if buf.length < Size.addSat position type.width then .ok none
    else do
      let s ← readScalar type buf position
      return some (0, ← countOf slot.name (.scalar s))
  | .text (.counted source), slot, _, _, counts => do
    return some (← scaled slot.name (counts.getD source 0) 1, 0)
  | .list element source, slot, _, _, counts => do
    return some (← scaled slot.name (counts.getD source 0) element.size, 0)
  | .struct layout, _, buf, position, _ =>
    if layout.isDynamic then do
      match ← measure layout buf position with
      | some length => return some (← spanOf layout length, 0)
      | none => return none
    else
      .ok (some (0, 0))
  | .text (.fixed _), _, _, _, _ | .array _ _, _, _, _, _ => .ok (some (0, 0))
end

end PacketWire.Layout
