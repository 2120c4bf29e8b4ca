import PacketWire.Proofs.Value.History
import PacketWire.Proofs.Wire.Scan

/-!
# Normal forms

A record and its normal form look the same on the wire: what normalising changes is what the
serialisation derives or does not look at.

* `Record.get?_arrange`, `Record.names_arrange_eq`: the normal form holds the fields of its layout and
  no others, in build order.
* `Layout.WellFormed.keeps`: the normal form has the serialisation of its record.
-/

namespace PacketWire

/-! ## Values in build order -/

namespace Record

/-- Under a name stands the value of its index. -/
theorem get?_arrange {names : List String} {order : List Nat} {values : List Value} {i : Nat}
    {name : String} {value : Value} (hnames : names.Nodup) (hname : names[i]? = some name)
    (hvalue : values[i]? = some value) (hi : i ∈ order) :
    (Record.arrange names order values).get? name = some value := by
  unfold Record.arrange Fields.get?
  induction order with
  | nil => cases hi
  | cons j order ih =>
    by_cases hj : j = i
    · subst hj
      simp [hname, hvalue]
    · have hother : i ∈ order := (List.mem_cons.mp hi).resolve_left fun h => hj h.symm
      cases hentry : names[j]?.bind fun other => values[j]?.map fun value => (other, value) with
      | none =>
        simp only [List.filterMap_cons, hentry]
        exact ih hother
      | some entry =>
        simp only [List.filterMap_cons, hentry]
        obtain ⟨other, hnamed, hpair⟩ := Option.bind_eq_some_iff.mp hentry
        obtain ⟨found, -, rfl⟩ := Option.map_eq_some_iff.mp hpair
        have hne : (name == other) = false := by
          rw [beq_eq_false_iff_ne]
          rintro rfl
          exact hj ((List.getElem?_inj (List.getElem?_eq_some_iff.mp hnamed).1 hnames).mp
            (hnamed.trans hname.symm))
        rw [List.lookup_cons, hne]
        exact ih hother

theorem filterMap_getElem?_range {α : Type} (items : List α) :
    (List.range items.length).filterMap (items[·]?) = items := by
  induction items with
  | nil => rfl
  | cons a items ih =>
    rw [List.length_cons, List.range_succ_eq_map, List.filterMap_cons_some (by rfl),
      List.filterMap_map]
    exact congrArg (a :: ·) ih

/-- The names are those of the fields, in build order. -/
theorem names_arrange_eq {names : List String} {values : List Value}
    (hlength : values.length = names.length) (order : List Nat) :
    (Record.arrange names order values).names = order.filterMap (names[·]?) := by
  unfold Record.arrange Fields.names
  rw [List.map_filterMap]
  congr 1
  funext i
  cases hname : names[i]? with
  | none => rfl
  | some name =>
    have hi : i < values.length := by
      rw [hlength]
      exact (List.getElem?_eq_some_iff.mp hname).1
    simp [List.getElem?_eq_getElem hi]

/-- All names are there, when the order has all indices. -/
theorem names_arrange {names : List String} {order : List Nat} {values : List Value}
    (hlength : values.length = names.length) (horder : order.Perm (List.range names.length)) :
    (Record.arrange names order values).names.Perm names := by
  rw [names_arrange_eq hlength]
  exact (horder.filterMap _).trans (List.Perm.of_eq (filterMap_getElem?_range names))

/-- The value under a name is that of an index at which the name stands. -/
theorem exists_of_get?_arrange {names : List String} {order : List Nat} {values : List Value}
    (hnames : names.Nodup) (hlength : values.length = names.length)
    (horder : order.Perm (List.range names.length)) {name : String} {value : Value}
    (h : (Record.arrange names order values).get? name = some value) :
    ∃ i : Nat, names[i]? = some name ∧ values[i]? = some value := by
  have hmem : name ∈ (Record.arrange names order values).names :=
    Fields.mem_names_iff.mpr ⟨value, h⟩
  obtain ⟨i, hname⟩ := List.getElem?_of_mem ((names_arrange hlength horder).mem_iff.mp hmem)
  have hi := (List.getElem?_eq_some_iff.mp hname).1
  have hget : values[i]? = some values[i] := List.getElem?_eq_getElem (hlength ▸ hi)
  rw [get?_arrange hnames hname hget (horder.mem_iff.mpr (List.mem_range.mpr hi))] at h
  cases h
  exact ⟨i, hname, hget⟩

end Record

/-! ## One value -/

theorem normalFields?_eq_some_iff {fields : List (FieldLayout Layout)} {names : List String}
    {record : Record} {values : List Value} :
    normalFields? fields names record = some values ↔
      fields.map (·.normal? names record) = values.map some := by
  induction fields generalizing values with
  | nil =>
    rw [normalFields?]
    cases values <;> simp
  | cons field fields ih =>
    rw [normalFields?_cons, Option.bind_eq_some_iff, List.map_cons]
    constructor
    · rintro ⟨value, hvalue, hrest⟩
      obtain ⟨later, hlater, rfl⟩ := Option.map_eq_some_iff.mp hrest
      rw [hvalue, ih.mp hlater, List.map_cons]
    · intro h
      cases values with
      | nil => cases h
      | cons value later =>
        rw [List.map_cons, List.cons.injEq] at h
        exact ⟨value, h.1, Option.map_eq_some_iff.mpr ⟨later, ih.mpr h.2, rfl⟩⟩

theorem serialFields?_congr {fields : List (FieldLayout Layout)} {names : List String}
    {record other : Record}
    (h : ∀ field ∈ fields, field.bytes? names other = field.bytes? names record) :
    serialFields? fields names other = serialFields? fields names record := by
  induction fields with
  | nil => rw [serialFields?, serialFields?]
  | cons field fields ih =>
    rw [serialFields?_cons, serialFields?_cons, h field (by simp),
      ih fun other hother => h other (by simp [hother])]

/-- A normal form has the serialisation of its record. -/
def Layout.Keeps (layout : Layout) : Prop :=
  ∀ record body normal, layout.serial? record = some body → layout.normal? record = some normal →
    layout.serial? normal = some body

/-- Items that keep their bytes keep the concatenation. -/
theorem concat?_mapM {α β : Type} {write : α → Option Bytes} {normal : α → Option β}
    {write' : β → Option Bytes} {items : List α} {found : List β} {out : Bytes}
    (hkeep : ∀ a ∈ items, ∀ bytes b, write a = some bytes → normal a = some b →
      write' b = some bytes)
    (h : concat? write items = some out) (hfound : items.mapM normal = some found) :
    concat? write' found = some out ∧ found.length = items.length := by
  induction items generalizing found out with
  | nil =>
    rw [List.mapM_nil] at hfound
    cases hfound
    exact ⟨h, rfl⟩
  | cons a items ih =>
    simp only [concat?, Option.bind_eq_some_iff, Option.map_eq_some_iff] at h
    obtain ⟨bytes, hbytes, tail, htail, rfl⟩ := h
    simp only [List.mapM_cons, Option.bind_eq_bind, Option.bind_eq_some_iff] at hfound
    obtain ⟨b, hb, later, hlater, hpair⟩ := hfound
    cases hpair
    obtain ⟨hrest, hlength⟩ := ih (fun c hc => hkeep c (by simp [hc])) htail hlater
    refine ⟨?_, by simp [hlength]⟩
    rw [concat?, hkeep a (by simp) bytes b hbytes hb, hrest]
    rfl

theorem ElementCodec.keeps {element : ElementCodec Layout}
    (hnested : ∀ inner ∈ element.nested, inner.Keeps) {value normal : Value} {bytes : Bytes}
    (h : element.serial? value = some bytes) (hnormal : element.normal? value = some normal) :
    element.serial? normal = some bytes ∧ normal.length? = value.length? := by
  cases element with
  | scalar type =>
    by_cases hbyte : type = .u8
    · subst hbyte
      cases value with
      | bytes b =>
        cases hnormal
        exact ⟨h, rfl⟩
      | array items =>
        have hconcat : concat? (Value.scalarBytes? .u8) items = some bytes := by
          simpa [ElementCodec.serial?] using h
        have hlength := length_concat? (fun _ _ _ => Value.length_scalarBytes?) hconcat
        simp only [ElementCodec.normal?, mapM_byte? hconcat, Option.map_some,
          Option.some.injEq] at hnormal
        subst hnormal
        refine ⟨rfl, ?_⟩
        rw [Value.length?, Value.length?, hlength, Primitive.width, Nat.mul_one]
      | _ => simp [ElementCodec.serial?] at h
    · have hsame : normal = value := by
        cases type <;> first | exact (Option.some.inj hnormal).symm | exact absurd rfl hbyte
      rw [hsame]
      exact ⟨h, rfl⟩
  | struct layout =>
    have hkeeps := hnested layout (by simp [ElementCodec.nested])
    cases value with
    | array items =>
      rw [ElementCodec.serial?] at h
      rw [ElementCodec.normal?] at hnormal
      obtain ⟨found, hfound, rfl⟩ := Option.map_eq_some_iff.mp hnormal
      have hkeep : ∀ item ∈ items, ∀ raw b,
          (item.record?.bind fun record => layout.serial? record) = some raw →
          (item.record?.bind fun record => (layout.normal? record).map Value.record) = some b →
          (b.record?.bind fun record => layout.serial? record) = some raw := by
        intro item _ raw b hraw hb
        obtain ⟨record, hrecord, hserial⟩ := Option.bind_eq_some_iff.mp hraw
        rw [hrecord, Option.bind_some] at hb
        obtain ⟨found, hfound, rfl⟩ := Option.map_eq_some_iff.mp hb
        exact hkeeps record raw found hserial hfound
      obtain ⟨hserial, hlength⟩ := concat?_mapM hkeep h hfound
      refine ⟨?_, by rw [Value.length?, Value.length?, hlength]⟩
      rw [ElementCodec.serial?]
      exact hserial
    | _ => simp [ElementCodec.serial?] at h

theorem FieldCodec.keeps {codec : FieldCodec Layout}
    (hnested : ∀ inner ∈ codec.nested, inner.Keeps) {value normal : Value} {bytes : Bytes}
    (h : codec.serial? value = some bytes) (hnormal : codec.normal? value = some normal) :
    codec.serial? normal = some bytes ∧ normal.length? = value.length? := by
  cases codec with
  | scalar type =>
    cases hnormal
    exact ⟨h, rfl⟩
  | text width =>
    cases hnormal
    exact ⟨h, rfl⟩
  | array element length =>
    rw [FieldCodec.serial?] at h ⊢
    rw [FieldCodec.normal?] at hnormal
    split at h
    · next hcount =>
      obtain ⟨hserial, hlength⟩ := element.keeps hnested h hnormal
      rw [if_pos (hlength.trans hcount)]
      exact ⟨hserial, hlength⟩
    · cases h
  | list element source =>
    rw [FieldCodec.serial?] at h ⊢
    rw [FieldCodec.normal?] at hnormal
    exact element.keeps hnested h hnormal
  | struct layout =>
    cases value with
    | record record =>
      rw [FieldCodec.serial?] at h
      rw [FieldCodec.normal?] at hnormal
      obtain ⟨found, hfound, rfl⟩ := Option.map_eq_some_iff.mp hnormal
      rw [FieldCodec.serial?]
      exact ⟨hnested layout (by simp [FieldCodec.nested]) record bytes found h hfound, rfl⟩
    | _ => simp [FieldCodec.serial?] at h

/-! ## One layout -/

namespace Layout

/-- What stands in the normal form under the names of a layout. -/
theorem normal?_eq_some {layout : Layout} (coherent : layout.Coherent) {record normal : Record}
    (h : layout.normal? record = some normal) :
    normal.names.Perm (layout.fields.map (·.name)) ∧
      ∀ field ∈ layout.fields, ∃ value, normal.get? field.name = some value ∧
        field.normal? (layout.fields.map (·.name)) record = some value := by
  rw [normal?_eq] at h
  obtain ⟨values, hvalues, rfl⟩ := Option.map_eq_some_iff.mp h
  rw [normalFields?_eq_some_iff] at hvalues
  have hlength : values.length = (layout.fields.map (·.name)).length := by
    have := congrArg List.length hvalues
    rw [List.length_map, List.length_map] at this
    rw [List.length_map, this]
  have horder : layout.buildOrder.Perm (List.range (layout.fields.map (·.name)).length) := by
    rw [List.length_map]
    exact coherent.order
  refine ⟨Record.names_arrange hlength horder, fun field hfield => ?_⟩
  obtain ⟨i, hi⟩ := List.getElem?_of_mem hfield
  have hat := congrArg (·[i]?) hvalues
  simp only [List.getElem?_map, hi, Option.map_some] at hat
  obtain ⟨value, hvalue, hnormal⟩ := Option.map_eq_some_iff.mp hat.symm
  refine ⟨value, Record.get?_arrange coherent.names (by rw [List.getElem?_map, hi]; rfl) hvalue ?_,
    hnormal.symm⟩
  rw [coherent.order.mem_iff, List.mem_range]
  exact (List.getElem?_eq_some_iff.mp hi).1

/-- A field of the normal form has the bytes it had. -/
theorem bytes?_normal {layout : Layout} (coherent : layout.Coherent)
    (hnested : ∀ inner ∈ layout.nested, inner.Keeps) {record normal : Record}
    (hbytes : ∀ field ∈ layout.fields,
      ∃ bytes, field.bytes? (layout.fields.map (·.name)) record = some bytes)
    (hget : ∀ field ∈ layout.fields, ∃ value, normal.get? field.name = some value ∧
      field.normal? (layout.fields.map (·.name)) record = some value)
    {field : FieldLayout Layout} (hfield : field ∈ layout.fields) :
    field.bytes? (layout.fields.map (·.name)) normal =
      field.bytes? (layout.fields.map (·.name)) record := by
  have hplain : ∀ other ∈ layout.fields, ¬other.isSizeField = true →
      ∃ value found bytes, record.get? other.name = some value ∧
        normal.get? other.name = some found ∧ other.codec.serial? value = some bytes ∧
        other.codec.serial? found = some bytes ∧ found.length? = value.length? := by
    intro other hother hsize
    obtain ⟨bytes, hserial⟩ := hbytes other hother
    obtain ⟨found, hfound, hnormal⟩ := hget other hother
    rw [FieldLayout.bytes?, if_neg hsize] at hserial
    rw [FieldLayout.normal?, if_neg hsize] at hnormal
    obtain ⟨value, hvalue, hserial⟩ := Option.bind_eq_some_iff.mp hserial
    rw [hvalue, Option.bind_some] at hnormal
    obtain ⟨hkept, hlength⟩ := other.codec.keeps
      (fun inner hinner => hnested inner (mem_nested hother hinner)) hserial hnormal
    exact ⟨value, found, bytes, hvalue, hfound, hserial, hkept, hlength⟩
  rw [FieldLayout.bytes?, FieldLayout.bytes?]
  by_cases hsize : field.isSizeField = true
  · rw [if_pos hsize, if_pos hsize]
    -- the dependents count nothing, so they have kept their lengths
    have hlengths : ∀ j ∈ field.dependents,
        normal.lengthAt? (layout.fields.map (·.name)) j =
          record.lengthAt? (layout.fields.map (·.name)) j := by
      intro j hj
      obtain ⟨i, hi⟩ := List.getElem?_of_mem hfield
      obtain ⟨other, hother, hsource⟩ := (coherent.mem_dependents_iff hi j).mp hj
      have hmem := List.mem_of_getElem? hother
      have hcounts : ¬other.isSizeField = true := by
        intro h
        obtain ⟨type, htype⟩ := coherent.codec_of_mem hmem h
        rw [htype] at hsource
        cases hsource
      obtain ⟨value, found, -, hvalue, hfound, -, -, hlength⟩ := hplain other hmem hcounts
      simp [Record.lengthAt?, hother, hvalue, hfound, hlength]
    congr 1
    refine Option.ext fun n => ?_
    rw [Record.commonLength?_eq_some_iff, Record.commonLength?_eq_some_iff]
    exact and_congr_right fun _ =>
      forall₂_congr fun j hj => by rw [hlengths j hj]
  · rw [if_neg hsize, if_neg hsize]
    obtain ⟨value, found, bytes, hvalue, hfound, hserial, hkept, -⟩ := hplain field hfield hsize
    rw [hvalue, hfound, Option.bind_some, Option.bind_some, hserial, hkept]

/-- A normal form has the serialisation of its record. -/
theorem WellFormed.keeps {layout : Layout} (h : layout.WellFormed) : layout.Keeps := by
  induction h with
  | @intro layout coherent _ ih =>
    intro record body normal hbody hnormal
    rw [serial?_eq] at hbody ⊢
    obtain ⟨-, hget⟩ := normal?_eq_some coherent hnormal
    rw [← hbody]
    exact serialFields?_congr fun field hfield => bytes?_normal coherent ih
      (fun other hother =>
        let ⟨bytes, hbytes, _⟩ := bytes?_of_serialFields? hbody hother
        ⟨bytes, hbytes⟩) hget hfield

end Layout

end PacketWire
