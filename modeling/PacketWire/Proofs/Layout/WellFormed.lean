import Mathlib.Algebra.GroupWithZero.Nat
import Mathlib.Data.List.Forall2
import PacketWire.Codec.Access
import PacketWire.Layout.Compile

/-!
# Well-formed layouts

What the codec relies on in a compiled layout, without the schema it came from: the fields stand
one behind the other, names are distinct, every length source is an earlier integer field, and the
same holds of every nested layout, which starts at zero and is of a fixed positive size where it is
the element of an array.

An offset *stands* at a position of a buffer once the spans of the fields before it are known.

* `Tiled`: each field's offset is the position behind the field before it.
* `Stands.behind`: stepping over a field moves the position by its fixed width and its span.
* `locate_eq_ok_iff`: locating gives the exact position, and fails where that is no size.
* `Layout.WellFormed`: the invariant of compiled layouts; its induction follows the nesting.
-/

namespace PacketWire

/-- A computation with two steps succeeds when both do. -/
theorem bind_eq_ok_iff {ε α β : Type} {x : Except ε α} {f : α → Except ε β} {b : β} :
    (x >>= f) = .ok b ↔ ∃ a, x = .ok a ∧ f a = .ok b := by
  cases x with
  | error fault => simp [bind, Except.bind]
  | ok a => simp [bind, Except.bind]

theorem pure_eq_ok_iff {ε α : Type} {a b : α} : (pure a : Except ε α) = .ok b ↔ a = b :=
  Except.ok.injEq a b ▸ Iff.rfl

theorem toOption_eq_some_iff {ε α : Type} {x : Except ε α} {a : α} :
    x.toOption = some a ↔ x = .ok a := by
  cases x <;> simp [Except.toOption]

/-- Lists that are related entry by entry are related at every index. -/
theorem forall₂_getElem? {α β : Type} {R : α → β → Prop} {as : List α} {bs : List β}
    (h : List.Forall₂ R as bs) {i : Nat} {a : α} {b : β} (ha : as[i]? = some a)
    (hb : bs[i]? = some b) : R a b := by
  obtain ⟨hi, rfl⟩ := List.getElem?_eq_some_iff.mp ha
  obtain ⟨hi', rfl⟩ := List.getElem?_eq_some_iff.mp hb
  exact h.get hi hi'

/-! ## Nested layouts -/

/-- The layouts that the elements of an array have. -/
def ElementCodec.nested : ElementCodec Layout → List Layout
  | .scalar _ => []
  | .struct layout => [layout]

/-- The layouts inside one field. -/
def FieldCodec.nested : FieldCodec Layout → List Layout
  | .scalar _ | .text _ => []
  | .array element _ | .list element _ => element.nested
  | .struct layout => [layout]

/-- The layouts inside a layout, one level down. -/
def Layout.nested (layout : Layout) : List Layout := layout.fields.flatMap (·.codec.nested)

/-- A layout, and the layouts inside it at any depth. -/
inductive Layout.Inside (outer : Layout) : Layout → Prop
  | self : Inside outer outer
  | nested {layout inner : Layout} : Inside outer layout → inner ∈ layout.nested →
      Inside outer inner

theorem Layout.mem_nested {layout inner : Layout} {field : FieldLayout Layout}
    (hfield : field ∈ layout.fields) (hinner : inner ∈ field.codec.nested) :
    inner ∈ layout.nested :=
  List.mem_flatMap.mpr ⟨field, hfield, hinner⟩

/-- A struct is of variable length for what is inside it, not for an earlier field. -/
theorem FieldCodec.source?_struct (layout : Layout) :
    (FieldCodec.struct layout).source? = none := by
  cases hd : layout.isDynamic <;> simp [FieldCodec.source?, FieldCodec.span?, hd]

/-- Elements that an array can be strided by: structs have a fixed size above zero. -/
def ElementCodec.Strided : ElementCodec Layout → Prop
  | .scalar _ => True
  | .struct layout => layout.isDynamic = false ∧ 0 < layout.staticSize

/-- A field whose declared lengths are above zero and whose elements have a stride. -/
def FieldCodec.Sized : FieldCodec Layout → Prop
  | .scalar _ | .text (.counted _) | .struct _ => True
  | .text (.fixed bytes) => 0 < bytes
  | .array element length => element.Strided ∧ 0 < length
  | .list element _ => element.Strided

/-! ## Tiling -/

/-- The position behind a field: its fixed width further on, and its span where it has one. -/
def Offset.behind (offset : Offset) (index : Nat) (codec : FieldCodec Layout) (label : String) :
    Offset where
  constant := offset.constant + codec.staticWidth
  terms := offset.terms ++ (codec.span?.map fun _ => ⟨index, label⟩).toList

/-- The fields from an index on stand one behind the other, from one position to another. -/
inductive Tiled : Nat → Offset → List (FieldLayout Layout) → Offset → Prop
  | nil (index : Nat) (stop : Offset) : Tiled index stop [] stop
  | cons {index : Nat} {field : FieldLayout Layout} {rest : List (FieldLayout Layout)}
      {stop : Offset} (label : String) :
      Tiled (index + 1) (field.offset.behind index field.codec label) rest stop →
      Tiled index field.offset (field :: rest) stop

/-- An offset stands at a position: the spans of the fields it counts are known, and they put it
there. -/
structure Offset.Stands (offset : Offset) (base : Nat) (spans : List Nat) (position : Nat) :
    Prop where
  position : base + offset.total spans = position
  known : ∀ term ∈ offset.terms, term.field < spans.length

/-- A codec without a run-time span leaves the span zero. -/
def FieldCodec.Spans (codec : FieldCodec Layout) (span : Nat) : Prop :=
  codec.span? = none → span = 0

namespace Offset

theorem spanSum_append (spans : List Nat) (terms more : List Term) :
    spanSum spans (terms ++ more) = spanSum spans terms + spanSum spans more := by
  induction terms with
  | nil => simp [spanSum]
  | cons term terms ih => simp [spanSum, ih]; omega

/-- Spans of later fields do not move an offset. -/
theorem spanSum_extend {spans : List Nat} (more : List Nat) {terms : List Term}
    (h : ∀ term ∈ terms, term.field < spans.length) :
    spanSum (spans ++ more) terms = spanSum spans terms := by
  induction terms with
  | nil => rfl
  | cons term terms ih =>
    have hterm : term.field < spans.length := h term (by simp)
    rw [spanSum, spanSum, ih fun t ht => h t (by simp [ht])]
    simp only [Term.span, List.getD_eq_getElem?_getD, List.getElem?_append_left hterm]

theorem total_start (start : Nat) (spans : List Nat) : total ⟨start, []⟩ spans = start := by
  simp [total, spanSum]

theorem constant_le_total (offset : Offset) (spans : List Nat) :
    offset.constant ≤ offset.total spans :=
  Nat.le_add_right _ _

theorem stands_start (base start : Nat) : Stands ⟨start, []⟩ base [] (base + start) :=
  ⟨by rw [total_start], by simp⟩

/-- Once an offset stands, the spans of later fields leave it there. -/
theorem Stands.extend {offset : Offset} {base position : Nat} {spans : List Nat}
    (h : offset.Stands base spans position) (more : List Nat) :
    offset.Stands base (spans ++ more) position := by
  constructor
  · rw [← h.position, total, total, spanSum_extend more h.known]
  · intro term hterm
    have := h.known term hterm
    rw [List.length_append]
    omega

/-- Stepping over a field moves the position by the field's fixed width and its span. -/
theorem Stands.behind {offset : Offset} {base position : Nat} {spans : List Nat}
    (h : offset.Stands base spans position) {codec : FieldCodec Layout} {span : Nat}
    (hspan : codec.Spans span) (label : String) :
    (offset.behind spans.length codec label).Stands base (spans ++ [span])
      (position + codec.staticWidth + span) := by
  have hold := spanSum_extend [span] h.known
  constructor
  · rw [← h.position]
    simp only [total, Offset.behind, spanSum_append, hold]
    cases hs : codec.span? with
    | none =>
      rw [hspan hs]
      simp [spanSum]
      omega
    | some s =>
      simp [spanSum, Term.span]
      omega
  · intro term hterm
    simp only [Offset.behind, List.mem_append] at hterm
    simp only [List.length_append, List.length_singleton]
    rcases hterm with hterm | hterm
    · have := h.known term hterm
      omega
    · cases hs : codec.span? with
      | none => simp [hs] at hterm
      | some s =>
        simp only [hs, Option.map_some, Option.toList_some, List.mem_singleton] at hterm
        rw [hterm]
        exact Nat.lt_succ_self _

end Offset

namespace Tiled

variable {index : Nat} {start stop : Offset} {fields : List (FieldLayout Layout)}

theorem constant_eq (h : Tiled index start fields stop) :
    stop.constant = start.constant + (fields.map (·.codec.staticWidth)).sum := by
  induction h with
  | nil => simp
  | cons label _ ih =>
    simp only [Offset.behind] at ih
    simp only [List.map_cons, List.sum_cons]
    omega

theorem constant_le (h : Tiled index start fields stop) : start.constant ≤ stop.constant := by
  rw [h.constant_eq]
  exact Nat.le_add_right _ _

/-- No span takes part in the end exactly when none takes part in the beginning or in a field. -/
theorem terms_eq_nil_iff (h : Tiled index start fields stop) :
    stop.terms = [] ↔ start.terms = [] ∧ ∀ field ∈ fields, field.codec.span? = none := by
  induction h with
  | nil => simp
  | @cons index field rest stop label _ ih =>
    rw [ih]
    simp only [Offset.behind, List.append_eq_nil_iff, Option.toList_eq_nil_iff,
      Option.map_eq_none_iff, List.forall_mem_cons, and_assoc]

end Tiled

/-! ## Locating -/

/-- The value of an offset, checked to be a size once it is moved to its base, is the exact
position. -/
theorem Codec.locate_eq_ok_iff {field : String} {base : Nat} {offset : Offset} {spans : List Nat}
    {position : Nat} :
    Codec.locate field base offset spans = .ok position ↔
      base + offset.total spans = position ∧ position < Size.limit := by
  have hvalue : (offset.eval? spans).bind (Size.add? base) = some position ↔
      base + offset.total spans = position ∧ position < Size.limit := by
    rw [Option.bind_eq_some_iff]
    constructor
    · rintro ⟨sum, hsum, hadd⟩
      obtain ⟨hposition, hlt⟩ := Size.add?_eq_some_iff.mp hadd
      refine ⟨?_, hlt⟩
      by_cases hconstant : offset.constant < Size.limit
      · rw [((offset.eval?_eq_some_iff spans hconstant).mp hsum).1, hposition]
      · -- a constant beyond sizes stays there, whatever is added to it
        exfalso
        cases hterms : offset.terms with
        | nil =>
          rw [offset.eval?_eq_of_terms_eq_nil spans hterms] at hsum
          cases hsum
          omega
        | cons term terms =>
          simp only [Offset.eval?, hterms, List.foldlM_cons, Option.bind_eq_bind,
            Option.bind_eq_some_iff] at hsum
          obtain ⟨next, hnext, -⟩ := hsum
          have := Size.add?_eq_some_iff.mp hnext
          omega
    · rintro ⟨hposition, hlt⟩
      have hle := offset.constant_le_total spans
      refine ⟨offset.total spans, ?_, Size.add?_eq_some_iff.mpr ⟨hposition, hlt⟩⟩
      exact (offset.eval?_eq_some_iff spans (by omega)).mpr ⟨rfl, by omega⟩
  rw [← hvalue]
  unfold Codec.locate
  cases (offset.eval? spans).bind (Size.add? base) with
  | none => simp
  | some sum => simp

theorem Codec.locate_of_stands {field : String} {base position : Nat} {offset : Offset}
    {spans : List Nat} (h : offset.Stands base spans position) (hlt : position < Size.limit) :
    Codec.locate field base offset spans = .ok position :=
  Codec.locate_eq_ok_iff.mpr ⟨h.position, hlt⟩

theorem Codec.eq_of_locate_of_stands {field : String} {base position found : Nat}
    {offset : Offset} {spans : List Nat} (hlocate : Codec.locate field base offset spans = .ok found)
    (h : offset.Stands base spans position) : found = position ∧ position < Size.limit := by
  obtain ⟨hfound, hlt⟩ := Codec.locate_eq_ok_iff.mp hlocate
  rw [h.position] at hfound
  exact ⟨hfound.symm, hfound ▸ hlt⟩

theorem Layout.terms_stop_eq_nil {layout : Layout} (h : layout.isDynamic = false) :
    layout.stop.terms = [] := by
  simpa [isDynamic, Offset.isStatic] using h

/-- A layout without run-time spans has a fixed length. -/
theorem Codec.length_of_locate_stop {layout : Layout} (hdynamic : layout.isDynamic = false) {name : String}
    {spans : List Nat} {length : Nat} (h : Codec.locate name 0 layout.stop spans = .ok length) :
    length = layout.staticSize := by
  rw [← (Codec.locate_eq_ok_iff.mp h).1, Offset.total, Layout.terms_stop_eq_nil hdynamic,
    Layout.staticSize]
  simp [Offset.spanSum]

/-! ## Well-formed layouts -/

/-- The dependents of a field are the fields whose codec names it. -/
theorem Compile.mem_dependentsOf_iff {codecs : List (FieldCodec Layout)} {source j : Nat} :
    j ∈ dependentsOf codecs source ↔
      ∃ codec, codecs[j]? = some codec ∧ codec.source? = some source := by
  rw [dependentsOf, List.mem_filter, List.mem_range, beq_iff_eq, Option.bind_eq_some_iff]
  refine and_iff_right_of_imp ?_
  rintro ⟨codec, hcodec, -⟩
  exact (List.getElem?_eq_some_iff.mp hcodec).1

namespace Layout

/-- What holds of a layout's own fields. -/
structure Coherent (layout : Layout) : Prop where
  tiled : Tiled 0 ⟨layout.start, []⟩ layout.fields layout.stop
  names : (layout.fields.map (·.name)).Nodup
  dependents : ∀ (i : Nat) (field : FieldLayout Layout), layout.fields[i]? = some field →
    field.dependents = Compile.dependentsOf (layout.fields.map (·.codec)) i
  sources : ∀ (j : Nat) (field : FieldLayout Layout), layout.fields[j]? = some field →
    ∀ i, field.codec.source? = some i → i < j ∧ ∃ (source : FieldLayout Layout) (type : Primitive),
      layout.fields[i]? = some source ∧ source.codec = .scalar type ∧ type.isInteger = true
  sized : ∀ field ∈ layout.fields, field.codec.Sized
  order : layout.buildOrder.Perm (List.range layout.fields.length)
  starts : ∀ inner ∈ layout.nested, inner.start = 0

/-- A layout that is coherent on every level. -/
inductive WellFormed : Layout → Prop
  | intro {layout : Layout} : layout.Coherent →
      (∀ inner ∈ layout.nested, inner.WellFormed) → layout.WellFormed

theorem WellFormed.coherent {layout : Layout} (h : layout.WellFormed) : layout.Coherent := by
  cases h with
  | intro coherent _ => exact coherent

theorem WellFormed.inside {outer layout : Layout} (h : outer.WellFormed)
    (hinside : outer.Inside layout) : layout.WellFormed := by
  induction hinside with
  | self => exact h
  | nested _ hinner ih =>
    cases ih with
    | intro _ hwell => exact hwell _ hinner

namespace Coherent

variable {layout : Layout} (h : layout.Coherent)
include h

theorem start_le_staticSize : layout.start ≤ layout.staticSize :=
  h.tiled.constant_le

/-- In a layout that is not of variable length no field is. -/
theorem span?_eq_none (hstatic : layout.isDynamic = false) :
    ∀ field ∈ layout.fields, field.codec.span? = none :=
  (h.tiled.terms_eq_nil_iff.mp (terms_stop_eq_nil hstatic)).2

/-- The fields whose length a field carries are those whose codec names it. -/
theorem mem_dependents_iff {i : Nat} {field : FieldLayout Layout}
    (hfield : layout.fields[i]? = some field) (j : Nat) :
    j ∈ field.dependents ↔
      ∃ other : FieldLayout Layout, layout.fields[j]? = some other ∧
        other.codec.source? = some i := by
  simp [h.dependents i field hfield, Compile.mem_dependentsOf_iff]

theorem isSizeField_iff {i : Nat} {field : FieldLayout Layout}
    (hfield : layout.fields[i]? = some field) :
    field.isSizeField = true ↔
      ∃ (j : Nat) (other : FieldLayout Layout), layout.fields[j]? = some other ∧
        other.codec.source? = some i := by
  rw [Slot.isSizeField, Bool.not_eq_true', List.isEmpty_eq_false_iff_exists_mem]
  exact exists_congr fun j => h.mem_dependents_iff hfield j

/-- Where no field has a run-time span, none carries lengths. -/
theorem isSizeField_eq_false (hspans : ∀ field ∈ layout.fields, field.codec.span? = none)
    {field : FieldLayout Layout} (hfield : field ∈ layout.fields) : field.isSizeField = false := by
  obtain ⟨i, hi⟩ := List.getElem?_of_mem hfield
  rw [← Bool.not_eq_true, h.isSizeField_iff hi]
  rintro ⟨j, other, hother, hsource⟩
  simp [FieldCodec.source?, hspans other (List.mem_of_getElem? hother)] at hsource

/-- Only an integer field carries lengths. -/
theorem codec_of_isSizeField {i : Nat} {field : FieldLayout Layout}
    (hfield : layout.fields[i]? = some field) (hsize : field.isSizeField = true) :
    ∃ type, field.codec = .scalar type ∧ type.isInteger = true := by
  obtain ⟨j, other, hother, hsource⟩ := (h.isSizeField_iff hfield).mp hsize
  obtain ⟨-, source, type, hi, hcodec, hinteger⟩ := h.sources j other hother i hsource
  rw [hfield] at hi
  cases hi
  exact ⟨type, hcodec, hinteger⟩

theorem integer_of_mem (field : FieldLayout Layout) (hfield : field ∈ layout.fields)
    (hsize : field.isSizeField = true) :
    ∃ type, field.codec = .scalar type ∧ type.isInteger = true := by
  obtain ⟨i, hi⟩ := List.getElem?_of_mem hfield
  exact h.codec_of_isSizeField hi hsize

theorem codec_of_mem {field : FieldLayout Layout} (hfield : field ∈ layout.fields)
    (hsize : field.isSizeField = true) : ∃ type, field.codec = .scalar type := by
  obtain ⟨type, hcodec, -⟩ := h.integer_of_mem field hfield hsize
  exact ⟨type, hcodec⟩

/-- The field that an earlier one names as its length source carries lengths. -/
theorem source_isSizeField {j : Nat} {field : FieldLayout Layout}
    (hfield : layout.fields[j]? = some field) {i : Nat} (hsource : field.codec.source? = some i) :
    i < j ∧ ∃ source, layout.fields[i]? = some source ∧ source.isSizeField = true ∧
      j ∈ source.dependents := by
  obtain ⟨hlt, source, type, hi, -, -⟩ := h.sources j field hfield i hsource
  exact ⟨hlt, source, hi, (h.isSizeField_iff hi).mpr ⟨j, field, hfield, hsource⟩,
    (h.mem_dependents_iff hi j).mpr ⟨field, hfield, hsource⟩⟩

end Coherent

end Layout

end PacketWire
