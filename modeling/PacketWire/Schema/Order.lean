import PacketWire.Schema.Error
import PacketWire.Schema.Field

/-!
# The order of fields on the wire

Fields without a position keep their declaration order. The fields with a position are then
inserted, lowest position first and ties in declaration order, each at the index it asks for, which
may be at most the number of fields placed before it.
-/

namespace PacketWire.Field

/-- The fields that leave their place on the wire to declaration order. -/
def unplaced (declared : List Field) : List Field :=
  declared.filter (·.position.isNone)

/-- The fields that ask for a place, with that place, lowest first; equal places keep declaration
order. -/
def placed (declared : List Field) : List (Nat × Field) :=
  (declared.filterMap fun field => field.position.map (·, field)).mergeSort
    fun a b => a.1 ≤ b.1

/-- Inserts each field at the index it asks for, one after another. -/
def insertPlaced (owner : String) : List (Nat × Field) → List Field → Except SchemaError (List Field)
  | [], ordered => .ok ordered
  | (position, field) :: rest, ordered =>
    if position ≤ ordered.length then
      insertPlaced owner rest (ordered.insertIdx position field)
    else
      .error (.orderOutOfRange owner field.name position ordered.length)

/-- The fields in wire order (`final_order`). -/
def wireOrder (owner : String) (declared : List Field) : Except SchemaError (List Field) :=
  insertPlaced owner (placed declared) (unplaced declared)

end PacketWire.Field
