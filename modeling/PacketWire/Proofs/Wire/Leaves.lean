import PacketWire.Proofs.Layout.Leaves
import PacketWire.Proofs.Wire.Serial

/-!
# Bytes of leaves

The values of the leaves of a record, found by the hops that find the leaves in the layout. Where
no size depends on a value, the wire form of a record is its leaves' wire forms one after another.

* `Layout.Fixed.serialLeaves`: a serialisation is the concatenation over the leaves.
* `LeafField.slice?_of_mem_placed`: each leaf's bytes stand at its position.
-/

namespace PacketWire

/-! ## Values of leaves -/

/-- The record that a value is, or that its element at an index is. -/
def Value.enter? : Value → Option Nat → Option Record
  | .record fields, none => some fields
  | .array items, some i => items[i]?.bind Value.record?
  | _, _ => none

/-- The record that a hop leads into. -/
def Record.enter? (record : Record) (hop : Hop) : Option Record :=
  (record.get? hop.name).bind fun value => value.enter? hop.index

/-- The record that hops lead into, one after another. -/
def Record.follow? (record : Record) (hops : List Hop) : Option Record :=
  hops.foldlM Record.enter? record

namespace LeafField

/-- What a record holds for a leaf. -/
def value? (leaf : LeafField) (record : Record) : Option Value :=
  (record.follow? leaf.hops).bind fun inner => inner.get? leaf.name

/-- The bytes of what a record holds for a leaf. -/
def bytes? (leaf : LeafField) (record : Record) : Option Bytes :=
  (leaf.value? record).bind leaf.codec.serial?

theorem bytes?_under (hop : Hop) (leaf : LeafField) (record : Record) :
    (leaf.under hop).bytes? record = (record.enter? hop).bind leaf.bytes? := by
  cases hinner : record.enter? hop <;>
    simp [bytes?, value?, under, Record.follow?, hinner]

theorem bytes?_here {name : String} {codec : FieldCodec Layout} {record : Record} {value : Value}
    (hvalue : record.get? name = some value) :
    bytes? ⟨[], name, codec⟩ record = codec.serial? value := by
  simp [bytes?, value?, Record.follow?, hvalue]

end LeafField

/-! ## Concatenations -/

section Concat

variable {α β : Type}

theorem concat?_append (f : α → Option Bytes) (items more : List α) :
    concat? f (items ++ more) =
      (concat? f items).bind fun bytes => (concat? f more).map (bytes ++ ·) := by
  induction items with
  | nil => cases h : concat? f more <;> simp [concat?, h]
  | cons a rest ih =>
    rw [List.cons_append, concat?, ih, concat?]
    cases f a <;> cases concat? f rest <;> cases concat? f more <;> simp

theorem concat?_map (f : α → Option Bytes) (g : β → α) (items : List β) :
    concat? f (items.map g) = concat? (fun b => f (g b)) items := by
  induction items with
  | nil => rfl
  | cons b rest ih => rw [List.map_cons, concat?, ih, concat?]

theorem concat?_flatMap (f : α → Option Bytes) (g : β → List α) (items : List β) :
    concat? f (items.flatMap g) = concat? (fun b => concat? f (g b)) items := by
  induction items with
  | nil => rfl
  | cons b rest ih => rw [List.flatMap_cons, concat?_append, ih, concat?]

theorem concat?_singleton (f : α → Option Bytes) (a : α) : concat? f [a] = f a := by
  cases h : f a <;> simp [concat?, h]

/-- A concatenation is one over the indices. -/
theorem concat?_range (f : α → Option Bytes) (items : List α) :
    concat? f items = concat? (fun i => items[i]?.bind f) (List.range items.length) := by
  have hitems : (List.range items.length).map (items[·]?) = items.map some := by
    refine List.ext_getElem? fun i => ?_
    by_cases hi : i < items.length <;> simp [hi]
  rw [← concat?_map (fun item : Option α => item.bind f), hitems, concat?_map]
  rfl

theorem concat?_mono {f g : α → Option Bytes} {items : List α}
    (hfg : ∀ a ∈ items, ∀ bytes, f a = some bytes → g a = some bytes) {out : Bytes}
    (h : concat? f items = some out) : concat? g items = some out := by
  induction items generalizing out with
  | nil => exact h
  | cons a rest ih =>
    rw [List.forall_mem_cons] at hfg
    simp only [concat?, Option.bind_eq_some_iff, Option.map_eq_some_iff] at h ⊢
    obtain ⟨bytes, hbytes, tail, htail, rfl⟩ := h
    exact ⟨bytes, hfg.1 bytes hbytes, tail, ih hfg.2 htail, rfl⟩

end Concat

theorem serialFields?_eq_concat? (fields : List (FieldLayout Layout)) (names : List String)
    (record : Record) :
    serialFields? fields names record = concat? (·.bytes? names record) fields := by
  induction fields with
  | nil => rfl
  | cons field rest ih => rw [serialFields?_cons, ih, concat?]

/-! ## The leaves of a record -/

/-- The wire form of a record is that of its leaves, one after another. -/
def Layout.SerialLeaves (layout : Layout) : Prop :=
  ∀ record bytes, layout.serial? record = some bytes →
    concat? (·.bytes? record) layout.leafFields = some bytes

/-- The leaves of a struct that a hop leads into are written as the struct is. -/
theorem Layout.SerialLeaves.under {layout : Layout} (h : layout.SerialLeaves) {hop : Hop}
    {record inner : Record} (hinner : record.enter? hop = some inner) {bytes : Bytes}
    (hbytes : layout.serial? inner = some bytes) :
    concat? (LeafField.bytes? · record) (layout.leafFields.map (LeafField.under hop)) =
      some bytes := by
  simp only [concat?_map, LeafField.bytes?_under, hinner, Option.bind_some]
  exact h inner bytes hbytes

/-- The leaves of a field are written as its value is. -/
theorem FieldCodec.concat?_leafFields {codec : FieldCodec Layout} (hspan : codec.span? = none)
    (hnested : ∀ inner ∈ codec.nested, inner.SerialLeaves) {name : String} {record : Record}
    {value : Value} (hvalue : record.get? name = some value) {bytes : Bytes}
    (h : codec.serial? value = some bytes) :
    concat? (·.bytes? record) (codec.leafFields name) = some bytes := by
  cases codec with
  | list element source => simp [span?] at hspan
  | scalar type | text width =>
    rw [leafFields, concat?_singleton, LeafField.bytes?_here hvalue, h]
  | struct layout =>
    cases value with
    | record inner =>
      rw [serial?] at h
      have hinner : record.enter? ⟨name, none⟩ = some inner := by
        simp [Record.enter?, hvalue, Value.enter?]
      rw [leafFields]
      exact (hnested layout (by simp [nested])).under hinner h
    | _ => simp [serial?] at h
  | array element length =>
    cases element with
    | scalar type => rw [leafFields, concat?_singleton, LeafField.bytes?_here hvalue, h]
    | struct layout =>
      have hlayout := hnested layout (by simp [nested, ElementCodec.nested])
      rw [serial?, Option.ite_none_right_eq_some] at h
      obtain ⟨hlength, h⟩ := h
      cases value with
      | array items =>
        cases hlength
        -- the writer goes over the items, the leaves go over their indices
        rw [ElementCodec.serial?, concat?_range] at h
        rw [leafFields, concat?_flatMap]
        refine concat?_mono (fun i _ out hout => ?_) h
        obtain ⟨item, hitem, hout⟩ := Option.bind_eq_some_iff.mp hout
        obtain ⟨inner, hrecord, hout⟩ := Option.bind_eq_some_iff.mp hout
        have hinner : record.enter? ⟨name, some i⟩ = some inner := by
          simp [Record.enter?, hvalue, Value.enter?, hitem, hrecord]
        exact hlayout.under hinner hout
      | _ => simp [ElementCodec.serial?] at h

namespace Layout

/-- The wire form of a record without sizes that depend on values is that of its leaves. -/
theorem Fixed.serialLeaves {layout : Layout} (h : layout.Fixed) : layout.SerialLeaves := by
  induction h with
  | @intro layout coherent hspans _ ih =>
    intro record bytes hbytes
    rw [serial?_eq, serialFields?_eq_concat?] at hbytes
    rw [leafFields_eq, concat?_flatMap]
    refine concat?_mono (fun field hfield out hout => ?_) hbytes
    rw [FieldLayout.bytes?, coherent.isSizeField_eq_false hspans hfield] at hout
    obtain ⟨value, hvalue, hout⟩ := Option.bind_eq_some_iff.mp hout
    exact field.codec.concat?_leafFields (hspans field hfield)
      (fun inner hinner => ih inner (mem_nested hfield hinner)) hvalue hout

/-- A leaf of a fixed layout has a size, and no run-time span. -/
theorem Fixed.sized_of_hasLeaf {layout : Layout} (h : layout.Fixed) {leaf : LeafField}
    (hleaf : layout.HasLeaf leaf) : leaf.codec.Sized ∧ leaf.codec.span? = none := by
  induction h generalizing leaf with
  | @intro layout coherent hspans _ ih =>
    obtain ⟨hops, name, codec⟩ := leaf
    cases hops with
    | nil =>
      obtain ⟨field, hfield, rfl, -⟩ := hasLeaf_here.mp hleaf
      obtain ⟨hmem, -⟩ := mem_of_field? hfield
      exact ⟨coherent.sized field hmem, hspans field hmem⟩
    | cons hop hops =>
      obtain ⟨field, inner, hfield, henter, hinner⟩ := hasLeaf_within.mp hleaf
      have hmem := mem_nested (mem_of_field? hfield).1 (FieldCodec.mem_nested_of_enter? henter)
      have hlast := ih inner hmem hinner
      exact hlast

/-- The bytes of a leaf fill its width. -/
theorem Fixed.length_bytes? {layout : Layout} (h : layout.Fixed) {leaf : LeafField}
    (hleaf : layout.HasLeaf leaf) {record : Record} {bytes : Bytes}
    (hbytes : leaf.bytes? record = some bytes) : bytes.length = leaf.width := by
  obtain ⟨hsized, hspan⟩ := h.sized_of_hasLeaf hleaf
  obtain ⟨inner, field, -, -, -, hnested⟩ := hleaf
  obtain ⟨value, -, hvalue⟩ := Option.bind_eq_some_iff.mp hbytes
  exact (leaf.codec.length_serial? hsized (by simp [hnested]) hvalue).2 hspan

end Layout

/-! ## Positions -/

theorem Bytes.slice?_append (front bytes back : Bytes) :
    Bytes.slice? (front ++ (bytes ++ back)) front.length bytes.length = some bytes := by
  have hlength : front.length + bytes.length ≤ (front ++ (bytes ++ back)).length := by
    simp only [List.length_append]
    omega
  rw [Bytes.slice?, if_pos hlength, List.drop_left, List.take_left]

/-- Leaves that are placed behind some bytes have their own bytes there. -/
theorem LeafField.slice?_of_mem_placed {f : LeafField → Option Bytes} {leaves : List LeafField}
    (hwidth : ∀ leaf ∈ leaves, ∀ bytes, f leaf = some bytes → bytes.length = leaf.width)
    {body : Bytes} (hbody : concat? f leaves = some body) (front back : Bytes)
    {leaf : LeafField} {position : Nat} (hleaf : (leaf, position) ∈ placed front.length leaves) :
    ∃ bytes, f leaf = some bytes ∧
      Bytes.slice? (front ++ (body ++ back)) position leaf.width = some bytes := by
  induction leaves generalizing front body with
  | nil => cases hleaf
  | cons first rest ih =>
    rw [List.forall_mem_cons] at hwidth
    simp only [concat?, Option.bind_eq_some_iff, Option.map_eq_some_iff] at hbody
    obtain ⟨bytes, hbytes, tail, htail, rfl⟩ := hbody
    have hfirst := hwidth.1 bytes hbytes
    rw [placed, List.mem_cons] at hleaf
    rcases hleaf with hleaf | hleaf
    · cases hleaf
      refine ⟨bytes, hbytes, ?_⟩
      rw [← hfirst, List.append_assoc]
      exact Bytes.slice?_append front bytes (tail ++ back)
    · have hrest := ih hwidth.2 htail (front ++ bytes) (by rwa [List.length_append, hfirst])
      simpa only [List.append_assoc] using hrest

end PacketWire
