import PacketWire.Proofs.Codec.Read
import PacketWire.Proofs.Layout.Construction
import PacketWire.Proofs.Wire.Normal

/-!
# Records in the order of construction

Every record that is read, and every record inside it, lists its names in the build order of the
layout it is read by.

* `Value.At`: a record found inside a value under a path of names.
* `Layout.WellFormed.builds`: a record at a path of one that is read lists its names as the layout
  at that path does.
-/

namespace PacketWire

/-- A record found inside a value under a path of names; arrays add nothing to the path. -/
inductive Value.At : Value → List String → Record → Prop
  | here (record : Record) : At (.record record) [] record
  | item {items : List Value} {item : Value} {path : List String} {found : Record} :
      item ∈ items → At item path found → At (.array items) path found
  | field {record : Record} {name : String} {value : Value} {path : List String} {found : Record} :
      record.get? name = some value → At value path found →
      At (.record record) (name :: path) found

/-- What is collected came from one of the items. -/
theorem exists_of_mem_mapM {ε α β : Type} {f : α → Except ε β} {items : List α} {found : List β}
    (h : items.mapM f = .ok found) {b : β} (hb : b ∈ found) : ∃ a ∈ items, f a = .ok b := by
  induction items generalizing found with
  | nil =>
    cases h
    cases hb
  | cons a items ih =>
    rw [List.mapM_cons] at h
    obtain ⟨first, hfirst, h⟩ := bind_eq_ok_iff.mp h
    obtain ⟨rest, hrest, h⟩ := bind_eq_ok_iff.mp h
    cases h
    rcases List.mem_cons.mp hb with rfl | hb
    · exact ⟨a, by simp, hfirst⟩
    · obtain ⟨other, hother, hfound⟩ := ih hrest hb
      exact ⟨other, by simp [hother], hfound⟩

namespace Layout

/-- What a layout inside the layouts reads from the buffer has the record at the path. -/
def ReadAt (layouts : List Layout) (buf : Bytes) (path : List String) (found : Record) : Prop :=
  ∃ inner ∈ layouts, ∃ base record length, inner.decodeFrom buf base = .ok (record, length) ∧
    (Value.record record).At path found

variable {buf : Bytes} {position : Nat} {path : List String} {found : Record}

/-- A record inside the elements of an array was read by their layout. -/
theorem readAt_of_decodeElements {element : ElementCodec Layout} {count : Nat} {value : Value}
    (h : decodeElements element buf position count = .ok value) (hat : value.At path found) :
    ReadAt element.nested buf path found := by
  cases element with
  | scalar type =>
    rw [decodeElements] at h
    rcases readScalars_cases h with ⟨raw, rfl⟩ | ⟨items, rfl⟩
    · cases hat
    · cases hat with
      | item hitem hat =>
        obtain ⟨s, -, rfl⟩ := List.mem_map.mp hitem
        cases hat
  | struct layout =>
    rw [decodeElements] at h
    obtain ⟨-, -, h⟩ := bind_eq_ok_iff.mp h
    obtain ⟨items, hitems, h⟩ := bind_eq_ok_iff.mp h
    cases h
    cases hat with
    | item hitem hat =>
      obtain ⟨⟨record, length⟩, hread, rfl⟩ := List.mem_map.mp hitem
      obtain ⟨k, -, hdecode⟩ := exists_of_mem_mapM hitems hread
      exact ⟨layout, List.mem_singleton_self _, _, record, length, hdecode, hat⟩

/-- A record inside a field was read by a layout inside its codec. -/
theorem readAt_of_decodeField {codec : FieldCodec Layout} {name : String} {counts : List Nat}
    {value : Value} {span : Nat} (h : decodeField codec name buf position counts = .ok (value, span))
    (hat : value.At path found) : ReadAt codec.nested buf path found := by
  cases codec with
  | scalar type =>
    rw [decodeField] at h
    obtain ⟨s, -, h⟩ := bind_eq_ok_iff.mp h
    cases h
    cases hat
  | text width =>
    cases width with
    | fixed bytes =>
      rw [decodeField] at h
      obtain ⟨s, -, h⟩ := bind_eq_ok_iff.mp h
      cases h
      cases hat
    | counted source =>
      rw [decodeField] at h
      obtain ⟨s, -, h⟩ := bind_eq_ok_iff.mp h
      cases h
      cases hat
  | array element length =>
    rw [decodeField] at h
    obtain ⟨items, hitems, h⟩ := bind_eq_ok_iff.mp h
    cases h
    exact readAt_of_decodeElements hitems hat
  | list element source =>
    rw [decodeField] at h
    obtain ⟨_, -, h⟩ := bind_eq_ok_iff.mp h
    obtain ⟨items, hitems, h⟩ := bind_eq_ok_iff.mp h
    cases h
    exact readAt_of_decodeElements hitems hat
  | struct layout =>
    rw [decodeField] at h
    obtain ⟨⟨record, length⟩, hdecode, h⟩ := bind_eq_ok_iff.mp h
    obtain ⟨_, -, h⟩ := bind_eq_ok_iff.mp h
    cases h
    exact ⟨layout, List.mem_singleton_self _, position, record, length, hdecode, hat⟩

/-- Every value was read by its field. -/
theorem forall₂_of_decodeFields {fields : List (FieldLayout Layout)} {base : Nat}
    {spans counts : List Nat} {values : List Value} {all : List Nat}
    (h : decodeFields fields buf base spans counts = .ok (values, all)) :
    List.Forall₂ (fun field value => ∃ position counts span,
      decodeField field.codec field.name buf position counts = .ok (value, span)) fields values := by
  induction fields generalizing spans counts values with
  | nil =>
    rw [decodeFields] at h
    cases h
    exact .nil
  | cons field fields ih =>
    obtain ⟨position, value, span, count, later, -, hvalue, -, hlater, rfl⟩ :=
      decodeFields_cons_eq_ok_iff.mp h
    exact .cons ⟨position, counts, span, hvalue⟩ (ih hlater)

/-- Whatever is read, a record at a path lists its names as the layout at that path does. -/
def Builds (layout : Layout) : Prop :=
  ∀ buf base record length, layout.decodeFrom buf base = .ok (record, length) →
    ∀ path found, (Value.record record).At path found →
      ∃ inner, layout.At path inner ∧ found.names = inner.builtNames

theorem WellFormed.builds {layout : Layout} (h : layout.WellFormed) : layout.Builds := by
  induction h with
  | @intro layout coherent _ ih =>
    intro buf base record length hdecode path found hat
    obtain ⟨values, spans, hfields, -, rfl⟩ := decodeFrom_eq_ok_iff.mp hdecode
    have hvalues := forall₂_of_decodeFields hfields
    have hlength : values.length = (layout.fields.map (·.name)).length := by
      rw [List.length_map, hvalues.length_eq]
    have horder : layout.buildOrder.Perm (List.range (layout.fields.map (·.name)).length) := by
      rw [List.length_map]
      exact coherent.order
    rw [assembleRecord_eq_arrange coherent.names (coherent.order.nodup_iff.mpr List.nodup_range)]
      at hat
    cases hat with
    | here => exact ⟨layout, .here layout, Record.names_arrange_eq hlength _⟩
    | @field _ name value path _ hvalue hat =>
      obtain ⟨i, hname, hget⟩ :=
        Record.exists_of_get?_arrange coherent.names hlength horder hvalue
      rw [List.getElem?_map, Option.map_eq_some_iff] at hname
      obtain ⟨field, hfield, rfl⟩ := hname
      obtain ⟨position, counts, span, hread⟩ := forall₂_getElem? hvalues hfield hget
      obtain ⟨inner, hinner, base, record, length, hdecode, hat⟩ := readAt_of_decodeField hread hat
      have hmem := List.mem_of_getElem? hfield
      obtain ⟨target, htarget, hnames⟩ :=
        ih inner (mem_nested hmem hinner) buf base record length hdecode path found hat
      exact ⟨target, .inside hmem hinner htarget, hnames⟩

end Layout

end PacketWire
