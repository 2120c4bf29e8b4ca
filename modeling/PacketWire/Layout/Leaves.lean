import PacketWire.Layout.Basic

/-!
# Leaves of a layout

A leaf is a field that holds no struct: a scalar, a text, an array of scalars. Listing the leaves
inlines nested structs and unrolls fixed arrays of structs; an array of run-time length is listed
once, with the position of its element `i`.
-/

namespace PacketWire

/-- A leaf: the path to it and the position it has, in writing. -/
structure Leaf where
  path : String
  position : String
  deriving DecidableEq, Repr

namespace Layout

mutual
/-- The leaves of a layout that stands at `base`, with `path` in front of their paths
(`collect_leaves`). -/
def leavesAt : Layout → String → Offset → List Leaf
  | ⟨_, _, fields, _, _⟩, path, base => fieldLeaves fields path base

/-- The leaves of a list of fields. -/
def fieldLeaves : List (FieldLayout Layout) → String → Offset → List Leaf
  | [], _, _ => []
  | ⟨slot, codec⟩ :: rest, path, base =>
    codecLeaves codec (path ++ slot.name) (base.rebase slot.offset path) ++
      fieldLeaves rest path base

/-- The leaves of one field that stands at `offset`. -/
def codecLeaves : FieldCodec Layout → String → Offset → List Leaf
  | .struct layout, path, offset => leavesAt layout (path ++ ".") offset
  | .array (.struct layout) length, path, offset =>
    (List.range length).flatMap fun i =>
      leavesAt layout (path ++ "[" ++ toString i ++ "].")
        { offset with constant := offset.constant + i * layout.staticSize }
  | .list element _, path, offset =>
    [⟨path ++ "[i]", offset.render ++ " + i*" ++ toString element.size⟩]
  | .scalar _, path, offset | .text _, path, offset | .array (.scalar _) _, path, offset =>
    [⟨path, offset.render⟩]
end

/-- The leaves of a layout, in wire order (`leaf_offsets`). -/
def leaves (layout : Layout) : List Leaf := layout.leavesAt "" ⟨0, []⟩

end Layout

end PacketWire
