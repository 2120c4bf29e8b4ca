import PacketWire.Layout.Leaves
import PacketWire.Proofs.Layout.Construction

/-!
# Where leaves stand

The leaves of a layout without run-time spans, told without offsets: the fields that hold no
struct, each with the way to it through the structs around it, in wire order. Each of them stands
where the one before it ends. The listing of a layout's leaves moves every nested layout to its
place and comes to the same positions.

* `Layout.HasLeaf`: a leaf is what one finds by following names and indices.
* `Layout.Fixed`: no run-time span at any depth; its induction follows the nesting.
* `Layout.Fixed.mem_leafFields_iff`: every leaf is among the leaf fields, and nothing else is.
* `Layout.Fixed.widths_leafFields`: the leaf fields fill the layout.
* `Layout.Fixed.listsPlaced`: the listing has the leaf fields one behind the other.
-/

namespace PacketWire

/-! ## Leaf fields -/

/-- A step into a struct: through the field that holds it, or to one element of an array. -/
@[ext]
structure Hop where
  name : String
  index : Option Nat
  deriving DecidableEq, Repr

/-- A hop in writing. -/
def Hop.render (hop : Hop) : String :=
  match hop.index with
  | none => hop.name ++ "."
  | some i => hop.name ++ "[" ++ toString i ++ "]."

/-- A field that holds no struct, and the way to it through the structs around it. -/
structure LeafField where
  hops : List Hop
  name : String
  codec : FieldCodec Layout

namespace LeafField

/-- The leaf as it is seen from outside the struct that a hop leads into. -/
def under (hop : Hop) (leaf : LeafField) : LeafField := { leaf with hops := hop :: leaf.hops }

/-- The way to the leaf, and its name, in writing. -/
def path (leaf : LeafField) : String := String.join (leaf.hops.map Hop.render) ++ leaf.name

/-- Bytes the leaf takes. -/
def width (leaf : LeafField) : Nat := leaf.codec.staticWidth

/-- Bytes that leaves take together. -/
def widths (leaves : List LeafField) : Nat := (leaves.map width).sum

/-- Leaves one behind the other from a position on, each with its own position. -/
def placed : Nat → List LeafField → List (LeafField × Nat)
  | _, [] => []
  | position, leaf :: rest => (leaf, position) :: placed (position + leaf.width) rest

/-- A leaf and its position in writing, with a path in front. -/
def written (path : String) (leaf : LeafField × Nat) : Leaf :=
  ⟨path ++ leaf.1.path, toString leaf.2⟩

end LeafField

mutual
/-- The leaf fields of a layout, in wire order: structs are inlined, and fixed arrays of structs are
unrolled. -/
def Layout.leafFields : Layout → List LeafField
  | ⟨_, _, fields, _, _⟩ => leafFieldsOf fields

/-- The leaf fields of a list of fields. -/
def leafFieldsOf : List (FieldLayout Layout) → List LeafField
  | [] => []
  | ⟨slot, codec⟩ :: rest => codec.leafFields slot.name ++ leafFieldsOf rest

/-- The leaf fields of the field under a name. -/
def FieldCodec.leafFields : FieldCodec Layout → String → List LeafField
  | .struct layout, name => layout.leafFields.map (.under ⟨name, none⟩)
  | .array (.struct layout) length, name =>
    (List.range length).flatMap fun i => layout.leafFields.map (.under ⟨name, some i⟩)
  | .scalar type, name => [⟨[], name, .scalar type⟩]
  | .text width, name => [⟨[], name, .text width⟩]
  | .array (.scalar type) length, name => [⟨[], name, .array (.scalar type) length⟩]
  | .list element source, name => [⟨[], name, .list element source⟩]
end

/-- The layout of the struct that a field holds, or of the element at an index. -/
def FieldCodec.enter? : FieldCodec Layout → Option Nat → Option Layout
  | .struct layout, none => some layout
  | .array (.struct layout) length, some i => if i < length then some layout else none
  | _, _ => none

namespace Layout

/-- The layout that a hop leads into. -/
def enter? (layout : Layout) (hop : Hop) : Option Layout :=
  (layout.field? hop.name).bind fun field => field.codec.enter? hop.index

/-- The layout that hops lead into, one after another. -/
def follow? (layout : Layout) (hops : List Hop) : Option Layout := hops.foldlM enter? layout

/-- A leaf of a layout: its hops lead to a layout in which its name stands for a field that is
written as the leaf is, and that holds no struct. -/
def HasLeaf (layout : Layout) (leaf : LeafField) : Prop :=
  ∃ inner field, layout.follow? leaf.hops = some inner ∧ inner.field? leaf.name = some field ∧
    field.codec = leaf.codec ∧ leaf.codec.nested = []

theorem leafFields_eq (layout : Layout) :
    layout.leafFields = layout.fields.flatMap fun field => field.codec.leafFields field.name := by
  obtain ⟨name, start, fields, stop, buildOrder⟩ := layout
  rw [leafFields]
  dsimp only
  induction fields with
  | nil => rfl
  | cons field rest ih =>
    obtain ⟨slot, codec⟩ := field
    rw [leafFieldsOf, ih, List.flatMap_cons]

end Layout

/-! ## Leaves one behind the other -/

namespace LeafField

theorem path_under (hop : Hop) (leaf : LeafField) :
    (leaf.under hop).path = hop.render ++ leaf.path := by
  rw [path, path, under, List.map_cons, String.join_cons, String.append_assoc]

@[simp]
theorem widths_append (leaves more : List LeafField) :
    widths (leaves ++ more) = widths leaves + widths more := by
  simp [widths]

@[simp]
theorem widths_map_under (hop : Hop) (leaves : List LeafField) :
    widths (leaves.map (under hop)) = widths leaves := by
  rw [widths, List.map_map]
  rfl

theorem widths_flatMap {α : Type} (f : α → List LeafField) (items : List α) :
    widths (items.flatMap f) = (items.map fun a => widths (f a)).sum := by
  induction items with
  | nil => rfl
  | cons a rest ih => rw [List.flatMap_cons, widths_append, ih, List.map_cons, List.sum_cons]

theorem widths_flatMap_range {f : Nat → List LeafField} {stride : Nat}
    (hstride : ∀ i, widths (f i) = stride) (n : Nat) :
    widths ((List.range n).flatMap f) = n * stride := by
  simp [widths_flatMap, hstride]

theorem map_fst_placed (position : Nat) (leaves : List LeafField) :
    (placed position leaves).map (·.1) = leaves := by
  induction leaves generalizing position with
  | nil => rfl
  | cons leaf rest ih => rw [placed, List.map_cons, ih]

theorem placed_append (position : Nat) (leaves more : List LeafField) :
    placed position (leaves ++ more) =
      placed position leaves ++ placed (position + widths leaves) more := by
  induction leaves generalizing position with
  | nil => rfl
  | cons leaf rest ih =>
    rw [List.cons_append, placed, ih, placed, List.cons_append, Nat.add_assoc]
    rfl

theorem placed_map_under (position : Nat) (hop : Hop) (leaves : List LeafField) :
    placed position (leaves.map (under hop)) =
      (placed position leaves).map (Prod.map (under hop) id) := by
  induction leaves generalizing position with
  | nil => rfl
  | cons leaf rest ih =>
    rw [List.map_cons, placed, ih, placed, List.map_cons]
    rfl

theorem placed_flatMap_range {f : Nat → List LeafField} {stride : Nat}
    (hstride : ∀ i, widths (f i) = stride) (position n : Nat) :
    placed position ((List.range n).flatMap f) =
      (List.range n).flatMap fun i => placed (position + i * stride) (f i) := by
  induction n with
  | zero => rfl
  | succ n ih =>
    rw [List.range_succ, List.flatMap_append, placed_append, ih, widths_flatMap_range hstride,
      List.flatMap_append, List.flatMap_singleton, List.flatMap_singleton]

/-- What is written in front of the leaves inside a struct ends with the hop into it. -/
theorem map_written_under (path : String) (hop : Hop) (position : Nat) (leaves : List LeafField) :
    (placed position (leaves.map (under hop))).map (written path) =
      (placed position leaves).map (written (path ++ hop.render)) := by
  rw [placed_map_under, List.map_map]
  refine List.map_congr_left fun leaf _ => ?_
  simp only [written, Function.comp_apply, Prod.map_fst, Prod.map_snd, id, path_under,
    String.append_assoc]

end LeafField

/-! ## Layouts without run-time spans -/

/-- A struct without a run-time span is fixed, and so are the elements of any array. -/
theorem FieldCodec.Sized.isDynamic_nested {codec : FieldCodec Layout} (h : codec.Sized)
    (hspan : codec.span? = none) : ∀ inner ∈ codec.nested, inner.isDynamic = false := by
  intro inner hinner
  cases codec with
  | scalar type | text width => simp [nested] at hinner
  | list element source => simp [span?] at hspan
  | struct layout =>
    rw [nested, List.mem_singleton] at hinner
    simpa [span?, hinner] using hspan
  | array element length =>
    cases element with
    | scalar type => simp [nested, ElementCodec.nested] at hinner
    | struct layout =>
      rw [nested, ElementCodec.nested, List.mem_singleton] at hinner
      exact hinner ▸ h.1.1

/-- A layout that is coherent and without run-time spans on every level. -/
inductive Layout.Fixed : Layout → Prop
  | intro {layout : Layout} : layout.Coherent →
      (∀ field ∈ layout.fields, field.codec.span? = none) →
      (∀ inner ∈ layout.nested, inner.Fixed) → layout.Fixed

/-- Without a run-time span there is none in the layouts inside either. -/
theorem Layout.WellFormed.fixed {layout : Layout} (h : layout.WellFormed)
    (hstatic : layout.isDynamic = false) : layout.Fixed := by
  induction h with
  | @intro layout coherent _ ih =>
    have hspans := coherent.span?_eq_none hstatic
    refine .intro coherent hspans fun inner hinner => ih inner hinner ?_
    obtain ⟨field, hfield, hmem⟩ := List.mem_flatMap.mp hinner
    exact (coherent.sized field hfield).isDynamic_nested (hspans field hfield) inner hmem

/-! ## Every leaf once -/

/-- What is under a hop begins with it. -/
theorem LeafField.mem_map_under {hop other : Hop} {hops : List Hop} {name : String}
    {codec : FieldCodec Layout} {leaves : List LeafField} :
    ⟨hop :: hops, name, codec⟩ ∈ leaves.map (under other) ↔
      other = hop ∧ ⟨hops, name, codec⟩ ∈ leaves := by
  rw [List.mem_map]
  constructor
  · rintro ⟨leaf, hleaf, heq⟩
    cases heq
    exact ⟨rfl, hleaf⟩
  · rintro ⟨rfl, hleaf⟩
    exact ⟨_, hleaf, rfl⟩

theorem FieldCodec.mem_nested_of_enter? {codec : FieldCodec Layout} {index : Option Nat}
    {inner : Layout} (h : codec.enter? index = some inner) : inner ∈ codec.nested := by
  unfold enter? at h
  split at h
  · cases h
    simp [nested]
  · obtain ⟨-, hinner⟩ := Option.ite_none_right_eq_some.mp h
    cases hinner
    simp [nested, ElementCodec.nested]
  · cases h

section Members

variable {codec : FieldCodec Layout} (hspan : codec.span? = none)
include hspan

/-- A field is a leaf itself when it holds no struct. -/
theorem FieldCodec.mem_leafFields_here {name label : String} {found : FieldCodec Layout} :
    ⟨[], label, found⟩ ∈ codec.leafFields name ↔
      label = name ∧ found = codec ∧ codec.nested = [] := by
  cases codec with
  | scalar type | text width => simp [leafFields, nested]
  | list element source => simp [span?] at hspan
  | struct layout => simp [leafFields, nested, LeafField.under]
  | array element length =>
    cases element <;> simp [leafFields, nested, ElementCodec.nested, LeafField.under]

/-- The leaves inside a field are those of the struct behind a hop. -/
theorem FieldCodec.mem_leafFields_within {name label : String} {found : FieldCodec Layout}
    {hop : Hop} {hops : List Hop} :
    ⟨hop :: hops, label, found⟩ ∈ codec.leafFields name ↔
      hop.name = name ∧ ∃ inner, codec.enter? hop.index = some inner ∧
        ⟨hops, label, found⟩ ∈ inner.leafFields := by
  obtain ⟨into, index⟩ := hop
  cases codec with
  | scalar type | text width => simp [leafFields, enter?]
  | list element source => simp [span?] at hspan
  | struct layout =>
    rw [leafFields, LeafField.mem_map_under]
    cases index <;> simp [enter?, eq_comm]
  | array element length =>
    cases element with
    | scalar type => simp [leafFields, enter?]
    | struct layout =>
      rw [leafFields, List.mem_flatMap]
      simp only [LeafField.mem_map_under]
      cases index with
      | none => simp [enter?]
      | some i =>
        simp only [enter?, List.mem_range, Hop.mk.injEq, Option.some.injEq,
          Option.ite_none_right_eq_some]
        constructor
        · rintro ⟨_, hlt, ⟨rfl, rfl⟩, hleaf⟩
          exact ⟨rfl, layout, ⟨hlt, rfl⟩, hleaf⟩
        · rintro ⟨rfl, _, ⟨hlt, rfl⟩, hleaf⟩
          exact ⟨i, hlt, ⟨rfl, rfl⟩, hleaf⟩

end Members

namespace Layout

theorem mem_of_field? {layout : Layout} {name : String} {field : FieldLayout Layout}
    (h : layout.field? name = some field) : field ∈ layout.fields ∧ field.name = name :=
  ⟨List.mem_of_find?_eq_some h, by simpa using List.find?_some h⟩

theorem Coherent.field?_eq_some_iff {layout : Layout} (h : layout.Coherent) {name : String}
    {field : FieldLayout Layout} :
    layout.field? name = some field ↔ field ∈ layout.fields ∧ field.name = name := by
  refine ⟨mem_of_field?, ?_⟩
  rintro ⟨hfield, rfl⟩
  exact Compile.find?_name h.names hfield

theorem hasLeaf_here {layout : Layout} {name : String} {codec : FieldCodec Layout} :
    layout.HasLeaf ⟨[], name, codec⟩ ↔
      ∃ field, layout.field? name = some field ∧ field.codec = codec ∧ codec.nested = [] := by
  simp [HasLeaf, follow?]

theorem hasLeaf_within {layout : Layout} {hop : Hop} {hops : List Hop} {name : String}
    {codec : FieldCodec Layout} :
    layout.HasLeaf ⟨hop :: hops, name, codec⟩ ↔
      ∃ field inner, layout.field? hop.name = some field ∧
        field.codec.enter? hop.index = some inner ∧ inner.HasLeaf ⟨hops, name, codec⟩ := by
  simp only [HasLeaf, follow?, enter?, List.foldlM_cons, Option.bind_eq_bind,
    Option.bind_eq_some_iff]
  constructor
  · rintro ⟨last, leaf, ⟨inner, ⟨field, hfield, henter⟩, hfollow⟩, hleaf⟩
    exact ⟨field, inner, hfield, henter, last, leaf, hfollow, hleaf⟩
  · rintro ⟨field, inner, hfield, henter, last, leaf, hfollow, hleaf⟩
    exact ⟨last, leaf, ⟨inner, ⟨field, hfield, henter⟩, hfollow⟩, hleaf⟩

/-- The leaf fields of a fixed layout are what its names and indices lead to. -/
theorem Fixed.mem_leafFields_iff {layout : Layout} (h : layout.Fixed) {leaf : LeafField} :
    leaf ∈ layout.leafFields ↔ layout.HasLeaf leaf := by
  induction h generalizing leaf with
  | @intro layout coherent hspans _ ih =>
    obtain ⟨hops, name, codec⟩ := leaf
    rw [leafFields_eq, List.mem_flatMap]
    cases hops with
    | nil =>
      rw [hasLeaf_here]
      refine exists_congr fun field => ?_
      rw [coherent.field?_eq_some_iff, and_assoc]
      refine and_congr_right fun hfield => ?_
      rw [FieldCodec.mem_leafFields_here (hspans field hfield)]
      constructor
      · rintro ⟨rfl, rfl, hnested⟩
        exact ⟨rfl, rfl, hnested⟩
      · rintro ⟨rfl, rfl, hnested⟩
        exact ⟨rfl, rfl, hnested⟩
    | cons hop hops =>
      rw [hasLeaf_within]
      refine exists_congr fun field => ?_
      rw [coherent.field?_eq_some_iff]
      constructor
      · rintro ⟨hfield, hleaf⟩
        obtain ⟨hname, inner, henter, hinner⟩ :=
          (FieldCodec.mem_leafFields_within (hspans field hfield)).mp hleaf
        exact ⟨inner, ⟨hfield, hname.symm⟩, henter,
          (ih inner (mem_nested hfield (FieldCodec.mem_nested_of_enter? henter))).mp hinner⟩
      · rintro ⟨inner, ⟨hfield, hname⟩, henter, hleaf⟩
        exact ⟨hfield, (FieldCodec.mem_leafFields_within (hspans field hfield)).mpr
          ⟨hname.symm, inner, henter,
            (ih inner (mem_nested hfield (FieldCodec.mem_nested_of_enter? henter))).mpr hleaf⟩⟩

end Layout

/-- The name with which the way to a leaf begins. -/
def LeafField.outermost (leaf : LeafField) : String :=
  match leaf.hops with
  | [] => leaf.name
  | hop :: _ => hop.name

theorem FieldCodec.outermost_of_mem {codec : FieldCodec Layout} (hspan : codec.span? = none)
    {name : String} {leaf : LeafField} (h : leaf ∈ codec.leafFields name) :
    leaf.outermost = name := by
  obtain ⟨hops, label, found⟩ := leaf
  cases hops with
  | nil => exact ((mem_leafFields_here hspan).mp h).1
  | cons hop hops => exact ((mem_leafFields_within hspan).mp h).1

namespace LeafField

theorem under_injective (hop : Hop) : Function.Injective (under hop) := by
  rintro ⟨hops, name, codec⟩ ⟨hops', name', codec'⟩ h
  cases h
  rfl

end LeafField

theorem FieldCodec.nodup_leafFields {codec : FieldCodec Layout}
    (hnested : ∀ inner ∈ codec.nested, inner.leafFields.Nodup) (name : String) :
    (codec.leafFields name).Nodup := by
  cases codec with
  | struct layout =>
    rw [leafFields]
    exact (hnested layout (by simp [nested])).map (LeafField.under_injective _)
  | array element length =>
    cases element with
    | scalar type => simp [leafFields]
    | struct layout =>
      have hlayout := hnested layout (by simp [nested, ElementCodec.nested])
      rw [leafFields, List.nodup_flatMap]
      refine ⟨fun i _ => hlayout.map (LeafField.under_injective _), ?_⟩
      refine List.nodup_range.imp fun {i j} hij => List.disjoint_left.mpr fun leaf hi hj => hij ?_
      -- a leaf under two hops has the same index in both
      obtain ⟨first, -, rfl⟩ := List.mem_map.mp hi
      obtain ⟨second, -, hsecond⟩ := List.mem_map.mp hj
      have hhops := congrArg LeafField.hops hsecond
      simp only [LeafField.under, List.cons.injEq, Hop.mk.injEq, Option.some.injEq] at hhops
      exact hhops.1.2.symm
  | _ => simp [leafFields]

/-- No leaf is listed twice. -/
theorem Layout.Fixed.nodup_leafFields {layout : Layout} (h : layout.Fixed) :
    layout.leafFields.Nodup := by
  induction h with
  | @intro layout coherent hspans _ ih =>
    rw [leafFields_eq, List.nodup_flatMap]
    refine ⟨fun field hfield => field.codec.nodup_leafFields
      (fun inner hinner => ih inner (mem_nested hfield hinner)) _, ?_⟩
    have hnames := coherent.names
    rw [List.Nodup, List.pairwise_map] at hnames
    refine hnames.imp_of_mem fun {first second} hfirst hsecond hne =>
      List.disjoint_left.mpr fun leaf hleaf hother => hne ?_
    rw [← FieldCodec.outermost_of_mem (hspans first hfirst) hleaf,
      ← FieldCodec.outermost_of_mem (hspans second hsecond) hother]

/-! ## Positions -/

open LeafField

/-- A field is filled by its leaves when the layouts inside it are filled by theirs. -/
theorem FieldCodec.widths_leafFields {codec : FieldCodec Layout} (hspan : codec.span? = none)
    (hnested : ∀ inner ∈ codec.nested, widths inner.leafFields = inner.staticSize) (name : String) :
    widths (codec.leafFields name) = codec.staticWidth := by
  cases codec with
  | list element source => simp [span?] at hspan
  | scalar type => simp [leafFields, widths, width]
  | text capacity => simp [leafFields, widths, width]
  | struct layout =>
    rw [leafFields, widths_map_under, hnested layout (by simp [nested]), staticWidth]
  | array element length =>
    cases element with
    | scalar type => simp [leafFields, widths, width]
    | struct layout =>
      have hlayout := hnested layout (by simp [nested, ElementCodec.nested])
      rw [leafFields, widths_flatMap_range fun i => by rw [widths_map_under, hlayout], staticWidth,
        ElementCodec.size, Nat.mul_comm]

namespace Layout

/-- A fixed layout is filled by its leaves, from where it starts. -/
theorem Fixed.widths_leafFields {layout : Layout} (h : layout.Fixed) :
    layout.start + widths layout.leafFields = layout.staticSize := by
  induction h with
  | @intro layout coherent hspans _ ih =>
    have hfields : ∀ field ∈ layout.fields,
        widths (field.codec.leafFields field.name) = field.codec.staticWidth := by
      intro field hfield
      refine field.codec.widths_leafFields (hspans field hfield) (fun inner hinner => ?_) _
      have hmem := mem_nested hfield hinner
      have hwidths := ih inner hmem
      rwa [coherent.starts inner hmem, Nat.zero_add] at hwidths
    have hsize : layout.staticSize =
        layout.start + (layout.fields.map (·.codec.staticWidth)).sum := coherent.tiled.constant_eq
    rw [hsize, leafFields_eq, widths_flatMap, List.map_congr_left hfields]

/-- Wherever a layout stands, its leaves are listed one behind the other. -/
def ListsPlaced (layout : Layout) : Prop :=
  ∀ path base, layout.leavesAt path ⟨base, []⟩ =
    (placed (base + layout.start) layout.leafFields).map (written path)

end Layout

/-- The leaves of a field that stands at a position, when those of the layouts inside it are listed
one behind the other. -/
theorem FieldCodec.codecLeaves_eq {codec : FieldCodec Layout} (hspan : codec.span? = none)
    (hnested : ∀ inner ∈ codec.nested, inner.start = 0 ∧ inner.Fixed ∧ inner.ListsPlaced)
    (path name : String) (position : Nat) :
    Layout.codecLeaves codec (path ++ name) ⟨position, []⟩ =
      (placed position (codec.leafFields name)).map (written path) := by
  have hrender : Offset.render ⟨position, []⟩ = toString position := by
    simp [Offset.render, String.join]
  cases codec with
  | list element source => simp [span?] at hspan
  | scalar type | text capacity =>
    simp [Layout.codecLeaves, leafFields, placed, written, LeafField.path, hrender]
  | struct layout =>
    obtain ⟨hstart, -, hleaves⟩ := hnested layout (by simp [nested])
    rw [Layout.codecLeaves, hleaves, hstart, leafFields, map_written_under, Hop.render,
      String.append_assoc]
    rfl
  | array element length =>
    cases element with
    | scalar type =>
      simp [Layout.codecLeaves, leafFields, placed, written, LeafField.path, hrender]
    | struct layout =>
      obtain ⟨hstart, hfixed, hleaves⟩ := hnested layout (by simp [nested, ElementCodec.nested])
      -- the listing strides by the size of the layout, which is what its leaves take
      have hwidths := hfixed.widths_leafFields
      rw [hstart, Nat.zero_add] at hwidths
      rw [Layout.codecLeaves, leafFields,
        placed_flatMap_range fun i => by rw [widths_map_under, hwidths], List.map_flatMap]
      refine congrArg (fun f => (List.range length).flatMap f) (funext fun i => ?_)
      rw [hleaves, hstart, map_written_under, Hop.render]
      simp only [String.append_assoc, Nat.add_zero]

namespace Layout

/-- The leaves of tiled fields, which are moved to where their layout stands. -/
theorem fieldLeaves_eq {index : Nat} {start stop : Offset} {fields : List (FieldLayout Layout)}
    (htiled : Tiled index start fields stop) (hstart : start.terms = [])
    (hspans : ∀ field ∈ fields, field.codec.span? = none)
    (hnested : ∀ field ∈ fields, ∀ inner ∈ field.codec.nested,
      inner.start = 0 ∧ inner.Fixed ∧ inner.ListsPlaced)
    (path : String) (base : Nat) :
    fieldLeaves fields path ⟨base, []⟩ = (placed (base + start.constant)
        (fields.flatMap fun field => field.codec.leafFields field.name)).map (written path) := by
  induction htiled with
  | nil => rfl
  | @cons index field rest stop label _ ih =>
    rw [List.forall_mem_cons] at hspans hnested
    have hrest := ih (by simp [Offset.behind, hstart, hspans.1]) hspans.2 hnested.2
    -- the next field's offset counts the bytes that the leaves of this one take
    have hwidths := field.codec.widths_leafFields hspans.1 (fun inner hinner => by
      obtain ⟨hzero, hfixed, -⟩ := hnested.1 inner hinner
      simpa [hzero] using hfixed.widths_leafFields) field.name
    have hrebase : (⟨base, []⟩ : Offset).rebase field.offset path =
        ⟨base + field.offset.constant, []⟩ := by
      simp [Offset.rebase, hstart]
    have hfirst := field.codec.codecLeaves_eq hspans.1 hnested.1 path field.name
      (base + field.offset.constant)
    obtain ⟨slot, codec⟩ := field
    rw [fieldLeaves, hrebase, hfirst, hrest, List.flatMap_cons, placed_append, List.map_append,
      hwidths, Offset.behind, Nat.add_assoc]

/-- The listing of a fixed layout, wherever it stands, has its leaf fields one behind the other. -/
theorem Fixed.listsPlaced {layout : Layout} (h : layout.Fixed) : layout.ListsPlaced := by
  induction h with
  | @intro layout coherent hspans hfixed ih =>
    intro path base
    have hleaves := fieldLeaves_eq coherent.tiled rfl hspans (fun field hfield inner hinner =>
      have hmem := mem_nested hfield hinner
      ⟨coherent.starts inner hmem, hfixed inner hmem, ih inner hmem⟩) path base
    rw [← leafFields_eq] at hleaves
    rw [← hleaves]
    cases layout
    rw [leavesAt]

end Layout

end PacketWire
