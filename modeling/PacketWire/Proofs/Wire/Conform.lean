import PacketWire.Proofs.Codec.Access
import PacketWire.Proofs.Wire.Serial

/-!
# Records that conform to a layout

What a record has to hold so that it can be put on the wire, said field by field and without a look
at bytes: every field that counts nothing is there and of the declared shape, at every depth, and
the fields that one size field counts have one length, which the type of the size field can hold.

* `Layout.Conforms`: a record holds what a layout asks for.
* `Layout.WellFormed.serial?_isSome_iff`: conforming records are those that have a serialisation.
* `Layout.WellFormed.length_eq_extent`: a serialisation takes the extent of its record.
-/

namespace PacketWire

/-! ## Conforming values -/

/-- A length is a number of the integer type that a field has. -/
def FieldCodec.Holds (codec : FieldCodec Layout) (length : Nat) : Prop :=
  ∃ s : Scalar, codec = .scalar s.type ∧ s.toInt? = some (length : Int)

mutual
/-- A record holds what a layout asks for. Of a size field nothing is asked: it carries the length
that its dependents have in common. -/
inductive Layout.Conforms : Layout → Record → Prop
  | intro {layout : Layout} {record : Record}
      (present : ∀ field ∈ layout.fields, field.isSizeField = false →
        (record.get? field.name).isSome = true)
      (shaped : ∀ field ∈ layout.fields, field.isSizeField = false →
        ∀ value, record.get? field.name = some value → FieldCodec.Conforms field.codec value)
      (counted : ∀ field ∈ layout.fields, field.isSizeField = true →
        ∃ length, field.codec.Holds length ∧ ∀ i ∈ field.dependents, ∀ other,
          layout.fields[i]? = some other →
          (record.get? other.name).bind Value.length? = some length) :
      Layout.Conforms layout record

/-- A value is what a field asks for. -/
inductive FieldCodec.Conforms : FieldCodec Layout → Value → Prop
  | scalar (s : Scalar) : FieldCodec.Conforms (.scalar s.type) (.scalar s)
  /-- A text is ASCII and free of NUL, and has room in the width where that is fixed. -/
  | text {width : TextWidth} {s : String} (ascii : ∀ c ∈ s.toList, c.toNat < 0x80)
      (nonzero : '\x00' ∉ s.toList)
      (fits : ∀ capacity, width = .fixed capacity → Utf8.length s ≤ capacity) :
      FieldCodec.Conforms (.text width) (.text s)
  | array {element : ElementCodec Layout} {length : Nat} {value : Value}
      (complete : value.length? = some length) (elements : ElementCodec.Conforms element value) :
      FieldCodec.Conforms (.array element length) value
  | list {element : ElementCodec Layout} {source : Nat} {value : Value}
      (elements : ElementCodec.Conforms element value) :
      FieldCodec.Conforms (.list element source) value
  | struct {layout : Layout} {record : Record} (inner : Layout.Conforms layout record) :
      FieldCodec.Conforms (.struct layout) (.record record)

/-- A value is an array of what its elements are asked to be. An array of bytes may be a byte
string. -/
inductive ElementCodec.Conforms : ElementCodec Layout → Value → Prop
  | bytes (b : Bytes) : ElementCodec.Conforms (.scalar .u8) (.bytes b)
  | scalars {type : Primitive} {items : List Scalar} (typed : ∀ s ∈ items, s.type = type) :
      ElementCodec.Conforms (.scalar type) (.array (items.map .scalar))
  | structs {layout : Layout} {records : List Record}
      (inner : ∀ record ∈ records, Layout.Conforms layout record) :
      ElementCodec.Conforms (.struct layout) (.array (records.map .record))
end

mutual
/-- The bytes from the start of a layout to the end of the last field of a record. -/
def Layout.extent : Layout → Record → Nat
  | ⟨_, start, fields, _, _⟩, record => start + fieldsExtent fields record

/-- The widths of a list of fields. -/
def fieldsExtent : List (FieldLayout Layout) → Record → Nat
  | [], _ => 0
  | ⟨slot, codec⟩ :: rest, record => codec.extent (record.get? slot.name) + fieldsExtent rest record

/-- The width of a field with some value. -/
def FieldCodec.extent : FieldCodec Layout → Option Value → Nat
  | .scalar type, _ => type.width
  | .text (.fixed capacity), _ => capacity
  | .text (.counted _), value => (value.bind Value.length?).getD 0 + 1
  | .array element length, _ => length * element.size
  | .list element _, value => (value.bind Value.length?).getD 0 * element.size
  | .struct layout, value =>
    match value.bind Value.record? with
    | some record => layout.extent record
    | none => 0
end

/-! ## Serialising scalars and texts -/

theorem FieldCodec.countBytes?_isSome_iff {codec : FieldCodec Layout} {length : Nat} :
    (codec.countBytes? length).isSome = true ↔ codec.Holds length := by
  constructor
  · intro h
    cases codec with
    | scalar type =>
      rw [countBytes?] at h
      split at h
      · next hlt => exact ⟨.ofNat type length, rfl, (Scalar.toInt?_ofNat hlt).2⟩
      · cases h
    | _ => cases h
  · rintro ⟨s, rfl, hs⟩
    rw [countBytes?, if_pos (Scalar.lt_countLimit hs).2]
    rfl

theorem Value.scalarBytes?_isSome_iff {type : Primitive} {value : Value} :
    (value.scalarBytes? type).isSome = true ↔ ∃ s : Scalar, value = .scalar s ∧ s.type = type := by
  cases value with
  | scalar s =>
    rw [Value.scalarBytes?]
    split <;> simp_all
  | _ => simp [Value.scalarBytes?]

theorem Value.asciiBytes?_isSome_iff {s : String} :
    (Value.asciiBytes? s).isSome = true ↔ (∀ c ∈ s.toList, c.toNat < 0x80) ∧ '\x00' ∉ s.toList := by
  have hzero : ∀ c : Char, 0 < c.toNat ↔ c ≠ '\x00' := by
    intro c
    rw [Nat.pos_iff_ne_zero, ne_eq, ne_eq, not_iff_not]
    exact ⟨fun h => Char.toNat_inj.mp h, fun h => h ▸ rfl⟩
  rw [Option.isSome_iff_exists]
  simp only [Value.asciiBytes?_eq_some_iff, exists_and_left, exists_eq, and_true, hzero]
  constructor
  · intro h
    exact ⟨fun c hc => (h c hc).2, fun hnul => (h _ hnul).1 rfl⟩
  · rintro ⟨hascii, hnul⟩ c hc
    exact ⟨fun hc0 => hnul (hc0 ▸ hc), hascii c hc⟩

theorem TextWidth.bytes?_isSome_iff {width : TextWidth} {s : String} :
    (width.bytes? s).isSome = true ↔ (Value.asciiBytes? s).isSome = true ∧
      ∀ capacity, width = .fixed capacity → Utf8.length s ≤ capacity := by
  cases hascii : Value.asciiBytes? s with
  | none => simp [TextWidth.bytes?, hascii]
  | some bytes =>
    rw [TextWidth.bytes?, hascii, Option.bind_some]
    cases width with
    | fixed capacity => simp [Value.length_asciiBytes? hascii]
    | counted source => simp

theorem concat?_isSome_iff {α : Type} {f : α → Option Bytes} {items : List α} :
    (concat? f items).isSome = true ↔ ∀ a ∈ items, (f a).isSome = true := by
  induction items with
  | nil => simp [concat?]
  | cons a items ih =>
    rw [concat?, List.forall_mem_cons, ← ih]
    cases f a <;> simp

/-- Items that are all of some shape are that shape of other items. -/
theorem exists_map_eq {α β : Type} {f : α → β} {P : α → Prop} {items : List β}
    (h : ∀ b ∈ items, ∃ a, b = f a ∧ P a) :
    ∃ found : List α, items = found.map f ∧ ∀ a ∈ found, P a := by
  induction items with
  | nil => exact ⟨[], rfl, by simp⟩
  | cons b items ih =>
    obtain ⟨a, rfl, ha⟩ := h b (by simp)
    obtain ⟨found, rfl, hfound⟩ := ih fun b hb => h b (by simp [hb])
    exact ⟨a :: found, rfl, List.forall_mem_cons.mpr ⟨ha, hfound⟩⟩

/-! ## Serialising fields -/

/-- The records that have a serialisation are the conforming ones. -/
def Layout.Serialises (layout : Layout) : Prop :=
  ∀ record, (layout.serial? record).isSome = true ↔ layout.Conforms record

theorem ElementCodec.serial?_isSome_iff {element : ElementCodec Layout}
    (hnested : ∀ inner ∈ element.nested, inner.Serialises) {value : Value} :
    (element.serial? value).isSome = true ↔ element.Conforms value := by
  cases element with
  | scalar type =>
    cases value with
    | bytes b =>
      constructor
      · intro h
        cases type <;> first | exact .bytes b | cases h
      · rintro ⟨⟩
        rfl
    | array items =>
      have hserial : (ElementCodec.scalar type : ElementCodec Layout).serial? (.array items) =
          concat? (Value.scalarBytes? type) items := by
        cases type <;> rfl
      simp only [hserial, concat?_isSome_iff, Value.scalarBytes?_isSome_iff]
      constructor
      · intro h
        obtain ⟨scalars, rfl, htyped⟩ := exists_map_eq h
        exact .scalars htyped
      · rintro (_ | @⟨_, scalars, htyped⟩ | _) item hitem
        obtain ⟨s, hs, rfl⟩ := List.mem_map.mp hitem
        exact ⟨s, rfl, htyped s hs⟩
    | _ =>
      constructor
      · intro h
        cases type <;> cases h
      · rintro ⟨⟩
  | struct layout =>
    have hlayout := hnested layout (by simp [ElementCodec.nested])
    cases value with
    | array items =>
      rw [ElementCodec.serial?, concat?_isSome_iff]
      constructor
      · intro h
        have hrecords : ∀ item ∈ items, ∃ record, item = .record record ∧
            layout.Conforms record := by
          intro item hitem
          have hsome := h item hitem
          cases item with
          | record record => exact ⟨record, rfl, (hlayout record).mp hsome⟩
          | _ => cases hsome
        obtain ⟨records, rfl, hinner⟩ := exists_map_eq hrecords
        exact .structs hinner
      · rintro (_ | _ | @⟨_, records, hinner⟩) item hitem
        obtain ⟨record, hrecord, rfl⟩ := List.mem_map.mp hitem
        exact (hlayout record).mpr (hinner record hrecord)
    | _ =>
      constructor
      · rintro ⟨⟩
      · rintro ⟨⟩

theorem FieldCodec.serial?_isSome_iff {codec : FieldCodec Layout}
    (hnested : ∀ inner ∈ codec.nested, inner.Serialises) {value : Value} :
    (codec.serial? value).isSome = true ↔ codec.Conforms value := by
  cases codec with
  | scalar type =>
    rw [serial?, Value.scalarBytes?_isSome_iff]
    constructor
    · rintro ⟨s, rfl, rfl⟩
      exact .scalar s
    · rintro ⟨⟩
      exact ⟨_, rfl, rfl⟩
  | text width =>
    cases value with
    | text s =>
      rw [serial?, TextWidth.bytes?_isSome_iff, Value.asciiBytes?_isSome_iff]
      constructor
      · rintro ⟨⟨hascii, hnul⟩, hfits⟩
        exact .text hascii hnul hfits
      · rintro (_ | ⟨hascii, hnul, hfits⟩)
        exact ⟨⟨hascii, hnul⟩, hfits⟩
    | _ =>
      constructor
      · rintro ⟨⟩
      · rintro ⟨⟩
  | array element length =>
    have helement : (element.serial? value).isSome = true ↔ element.Conforms value :=
      element.serial?_isSome_iff hnested
    rw [serial?]
    constructor
    · intro h
      split at h
      · next hlength => exact .array hlength (helement.mp h)
      · cases h
    · rintro (_ | _ | ⟨hlength, helements⟩)
      rw [if_pos hlength]
      exact helement.mpr helements
  | list element source =>
    have helement : (element.serial? value).isSome = true ↔ element.Conforms value :=
      element.serial?_isSome_iff hnested
    rw [serial?, helement]
    constructor
    · exact .list
    · rintro (_ | _ | _ | helements)
      exact helements
  | struct layout =>
    have hlayout := hnested layout (by simp [FieldCodec.nested])
    cases value with
    | record record =>
      rw [serial?, hlayout]
      constructor
      · exact .struct
      · rintro (_ | _ | _ | _ | hinner)
        exact hinner
    | _ =>
      constructor
      · rintro ⟨⟩
      · rintro ⟨⟩

theorem serialFields?_isSome_iff {fields : List (FieldLayout Layout)} {names : List String}
    {record : Record} : (serialFields? fields names record).isSome = true ↔
      ∀ field ∈ fields, (field.bytes? names record).isSome = true := by
  induction fields with
  | nil => simp [serialFields?]
  | cons field fields ih =>
    rw [serialFields?_cons, List.forall_mem_cons, ← ih]
    cases field.bytes? names record <;> simp

/-- A field has bytes where it is there and conforms, and a size field where its dependents have one
length that it can hold. -/
theorem FieldLayout.bytes?_isSome_iff {field : FieldLayout Layout}
    (hcodec : ∀ value, (field.codec.serial? value).isSome = true ↔ field.codec.Conforms value)
    {names : List String} {record : Record} :
    (field.bytes? names record).isSome = true ↔
      (field.isSizeField = false → (record.get? field.name).isSome = true) ∧
        (field.isSizeField = false → ∀ value, record.get? field.name = some value →
          field.codec.Conforms value) ∧
        (field.isSizeField = true → ∃ length, field.codec.Holds length ∧
          ∀ i ∈ field.dependents, record.lengthAt? names i = some length) := by
  rw [FieldLayout.bytes?]
  by_cases hsize : field.isSizeField = true
  · have hdependents : field.dependents ≠ [] := by
      simpa [Slot.isSizeField] using hsize
    rw [if_pos hsize]
    simp only [hsize, Bool.true_eq_false, false_imp_iff, true_and, forall_const]
    constructor
    · intro h
      obtain ⟨bytes, hbytes⟩ := Option.isSome_iff_exists.mp h
      obtain ⟨length, hlength, hcount⟩ := Option.bind_eq_some_iff.mp hbytes
      exact ⟨length, FieldCodec.countBytes?_isSome_iff.mp (by rw [hcount]; rfl),
        (Record.commonLength?_eq_some_iff.mp hlength).2⟩
    · rintro ⟨length, hholds, hlengths⟩
      rw [Record.commonLength?_eq_some_iff.mpr ⟨hdependents, hlengths⟩, Option.bind_some]
      exact FieldCodec.countBytes?_isSome_iff.mpr hholds
  · have hplain := Bool.eq_false_iff.mpr hsize
    rw [if_neg hsize]
    simp only [hplain, Bool.false_eq_true, false_imp_iff, and_true, forall_const]
    cases record.get? field.name with
    | none => simp
    | some value => simp [hcodec]

namespace Layout

theorem lengthAt?_of_getElem? {layout : Layout} {i : Nat} {field : FieldLayout Layout}
    (h : layout.fields[i]? = some field) (record : Record) :
    record.lengthAt? (layout.fields.map (·.name)) i =
      (record.get? field.name).bind Value.length? := by
  rw [Record.lengthAt?, List.getElem?_map, h]
  rfl

/-- The records that conform to a layout are those that have a serialisation. -/
theorem WellFormed.serial?_isSome_iff {layout : Layout} (h : layout.WellFormed) :
    layout.Serialises := by
  induction h with
  | @intro layout coherent _ ih =>
    intro record
    have hvalue : ∀ field ∈ layout.fields, ∀ value,
        (field.codec.serial? value).isSome = true ↔ field.codec.Conforms value :=
      fun field hfield value =>
        field.codec.serial?_isSome_iff fun inner hinner => ih inner (mem_nested hfield hinner)
    rw [serial?_eq, serialFields?_isSome_iff]
    constructor
    · intro hall
      have hfields := fun field hfield =>
        (FieldLayout.bytes?_isSome_iff (hvalue field hfield)).mp (hall field hfield)
      refine .intro (fun field hfield => (hfields field hfield).1)
        (fun field hfield => (hfields field hfield).2.1) fun field hfield hsize => ?_
      obtain ⟨length, hholds, hlengths⟩ := (hfields field hfield).2.2 hsize
      refine ⟨length, hholds, fun i hi other hother => ?_⟩
      rw [← lengthAt?_of_getElem? hother]
      exact hlengths i hi
    · rintro ⟨present, shaped, counted⟩ field hfield
      refine (FieldLayout.bytes?_isSome_iff (hvalue field hfield)).mpr
        ⟨present field hfield, shaped field hfield, fun hsize => ?_⟩
      obtain ⟨length, hholds, hlengths⟩ := counted field hfield hsize
      refine ⟨length, hholds, fun i hi => ?_⟩
      -- a dependent is a field of the layout
      obtain ⟨k, hk⟩ := List.getElem?_of_mem hfield
      obtain ⟨other, hother, -⟩ := (coherent.mem_dependents_iff hk i).mp hi
      rw [lengthAt?_of_getElem? hother]
      exact hlengths i hi other hother

end Layout

/-! ## Extents -/

theorem FieldCodec.length_eq_extent {codec : FieldCodec Layout} (hsized : codec.Sized)
    (hnested : ∀ inner ∈ codec.nested, (inner.start = 0 ∧ inner.SerialSized) ∧
      ∀ record body, inner.serial? record = some body →
        inner.start + body.length = inner.extent record) {value : Value} {bytes : Bytes}
    (h : codec.serial? value = some bytes) : bytes.length = codec.extent (some value) := by
  cases codec with
  | scalar type =>
    rw [serial?] at h
    exact Value.length_scalarBytes? h
  | text width =>
    cases value with
    | text s =>
      rw [serial?] at h
      obtain ⟨ascii, hascii, hlength⟩ := TextWidth.length_bytes? h
      cases width with
      | fixed capacity => rw [extent, hlength]
      | counted source =>
        rw [extent, hlength, Value.length_asciiBytes? hascii]
        rfl
    | _ => cases h
  | array element length =>
    rw [serial?] at h
    split at h
    · next hcomplete =>
      obtain ⟨count, hcount, hlength⟩ :=
        element.length_serial? hsized.1 (fun inner hinner => (hnested inner hinner).1) h
      rw [hcomplete] at hcount
      cases hcount
      rw [extent, hlength]
    · cases h
  | list element source =>
    rw [serial?] at h
    obtain ⟨count, hcount, hlength⟩ :=
      element.length_serial? hsized (fun inner hinner => (hnested inner hinner).1) h
    rw [extent, hlength, Option.bind_some, hcount]
    rfl
  | struct layout =>
    obtain ⟨⟨hstart, -⟩, hextent⟩ := hnested layout (by simp [FieldCodec.nested])
    cases value with
    | record record =>
      rw [serial?] at h
      have := hextent record bytes h
      rw [hstart, Nat.zero_add] at this
      rw [extent, this]
      rfl
    | _ => cases h

theorem length_eq_fieldsExtent {fields : List (FieldLayout Layout)} {names : List String}
    {record : Record}
    (hfields : ∀ field ∈ fields, ∀ bytes, field.bytes? names record = some bytes →
      bytes.length = field.codec.extent (record.get? field.name)) {body : Bytes}
    (h : serialFields? fields names record = some body) :
    body.length = fieldsExtent fields record := by
  induction fields generalizing body with
  | nil =>
    cases h
    rfl
  | cons field fields ih =>
    simp only [serialFields?_cons, Option.bind_eq_some_iff, Option.map_eq_some_iff] at h
    obtain ⟨bytes, hbytes, rest, hrest, rfl⟩ := h
    rw [List.length_append, hfields field (by simp) bytes hbytes,
      ih (fun other hother => hfields other (by simp [hother])) hrest, fieldsExtent]

/-- A serialisation takes the extent of its record. -/
theorem Layout.WellFormed.length_eq_extent {layout : Layout} (h : layout.WellFormed) :
    ∀ record body, layout.serial? record = some body →
      layout.start + body.length = layout.extent record := by
  induction h with
  | @intro layout coherent hwell ih =>
    intro record body hbody
    rw [serial?_eq] at hbody
    have hlength := length_eq_fieldsExtent (fun field hfield bytes hbytes => ?_) hbody
    · obtain ⟨name, start, fields, stop, buildOrder⟩ := layout
      rw [extent, hlength]
    · rw [FieldLayout.bytes?] at hbytes
      split at hbytes
      · next hsize =>
        -- the width of a size field does not depend on what the record holds under its name
        obtain ⟨type, hcodec⟩ := coherent.codec_of_mem hfield hsize
        obtain ⟨count, -, hcount⟩ := Option.bind_eq_some_iff.mp hbytes
        rw [(FieldCodec.length_countBytes? hcount).2, hcodec]
        rfl
      · obtain ⟨value, hget, hvalue⟩ := Option.bind_eq_some_iff.mp hbytes
        rw [hget]
        refine FieldCodec.length_eq_extent (coherent.sized field hfield) (fun inner hinner => ?_)
          hvalue
        have hmem := mem_nested hfield hinner
        exact ⟨⟨coherent.starts inner hmem, (hwell inner hmem).length_serial⟩, ih inner hmem⟩

end PacketWire
