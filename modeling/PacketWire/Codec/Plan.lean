import PacketWire.Codec.Access

/-!
# Sizing a record

Before a record is written, a plan settles what its bytes will be laid out by: the run-time span of
every field, the count that every size field has to carry, and the whole length. Fields counted by
one size field have to agree on their length.
-/

namespace PacketWire

/-- The sizes of one record under one layout. -/
structure Plan where
  /-- The run-time span of each field. -/
  spans : List Nat
  /-- The count that each size field carries, under the field's index. -/
  counts : List (Nat × Nat)
  /-- The whole length, the bytes in front of the first field included. -/
  length : Nat
  deriving DecidableEq, Repr

namespace Layout

open Codec

/-- Enters a count for a size field, which has to agree with one entered before. -/
def claimCount (names : List String) (source count : Nat) (counts : List (Nat × Nat)) :
    Except CodecError (List (Nat × Nat)) :=
  match counts.lookup source with
  | none => .ok (counts ++ [(source, count)])
  | some first =>
    if first = count then .ok counts
    else .error (.lengthConflict (names.getD source "") first count)

mutual
/-- The sizes of a record (`plan`). -/
def plan : Layout → Record → Except CodecError Plan
  | ⟨name, _, fields, stop, _⟩, record => do
    let (spans, counts) ← planFields fields (fields.map (·.name)) record [] []
    let length ← locate name 0 stop spans
    return ⟨spans, counts, length⟩

/-- The spans and counts of a list of fields, behind those of the fields before them. -/
def planFields : List (FieldLayout Layout) → List String → Record → List Nat → List (Nat × Nat) →
    Except CodecError (List Nat × List (Nat × Nat))
  | [], _, _, spans, counts => .ok (spans, counts)
  | ⟨slot, codec⟩ :: rest, names, record, spans, counts => do
    let (span, counts) ← planField codec slot names record counts
    planFields rest names record (spans ++ [span]) counts

/-- The span of one field, and the counts with the one it claims. -/
def planField : FieldCodec Layout → Slot → List String → Record → List (Nat × Nat) →
    Except CodecError (Nat × List (Nat × Nat))
  | .text (.counted source), slot, names, record, counts => do
    let value ← record.require slot.name
    let count ← textLength slot.name value
    let counts ← claimCount names source count counts
    return (← scaled slot.name count 1, counts)
  | .list element source, slot, names, record, counts => do
    let value ← record.require slot.name
    let count ← arrayLength slot.name value
    let counts ← claimCount names source count counts
    return (← scaled slot.name count element.size, counts)
  | .struct layout, slot, _, record, counts =>
    if layout.isDynamic then do
      let value ← record.require slot.name
      let inner ← value.asRecord slot.name
      let innerPlan ← plan layout inner
      return (← spanOf layout innerPlan.length, counts)
    else
      .ok (0, counts)
  | .scalar _, _, _, _, counts | .text (.fixed _), _, _, _, counts | .array _ _, _, _, _, counts =>
    .ok (0, counts)
end

/-- The bytes a record takes, those in front of the first field included (`encoded_len`). -/
def encodedLength (layout : Layout) (record : Record) : Except CodecError Nat := do
  return (← layout.plan record).length

end Layout

end PacketWire
