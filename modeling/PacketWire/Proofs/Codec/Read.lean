import PacketWire.Codec.Read
import PacketWire.Proofs.Wire.Scan

/-!
# Reading by position

Reading a record by its offsets gives what reading the bytes from left to right gives: each field's
offset stands where the field before it ends. Arrays are read by their stride, and that is the size
of an element.

* `Scan.take_drop`: taking bytes off the front is slicing at a position.
* `assembleRecord_eq_arrange`: values set one after another are the values in build order.
* `Layout.WellFormed.reads`: what the left-to-right reader reads, `decodeFrom` reads.
-/

namespace PacketWire

/-! ## Slices -/

/-- Taking bytes off the front of what stands behind a position is slicing there. -/
theorem Scan.take_drop {buf raw rest : Bytes} {position width : Nat} (hpos : position ≤ buf.length)
    (h : Scan.take width (buf.drop position) = some (raw, rest)) :
    position + width ≤ buf.length ∧ buf.slice? position width = some raw ∧
      rest = buf.drop (position + width) := by
  unfold Scan.take at h
  split at h
  · next hle =>
    rw [List.length_drop] at hle
    have hstop : position + width ≤ buf.length := by omega
    cases h
    refine ⟨hstop, ?_, ?_⟩
    · rw [Bytes.slice?, if_pos hstop]
    · rw [List.drop_drop]
  · cases h

theorem Layout.ensureElements_eq_ok {buf : Bytes} {position count size : Nat}
    (hlt : buf.length < Size.limit)
    (h : position + count * size ≤ buf.length) :
    Layout.ensureElements buf position count size = .ok () := by
  have hproduct : Size.mul? count size = some (count * size) :=
    Size.mul?_eq_some_iff.mpr ⟨rfl, by omega⟩
  have hsum : Size.add? position (count * size) = some (position + count * size) :=
    Size.add?_eq_some_iff.mpr ⟨rfl, by omega⟩
  rw [Layout.ensureElements, hproduct, Option.bind_some, hsum]
  exact Codec.ensure_eq_ok h

section

variable {buf rest : Bytes} {position : Nat} (hpos : position ≤ buf.length)
include hpos

theorem Codec.readScalar_scan {type : Primitive} {s : Scalar}
    (h : Scan.scalar type (buf.drop position) = some (s, rest)) :
    Codec.readScalar type buf position = .ok s ∧ position + type.width ≤ buf.length ∧
      rest = buf.drop (position + type.width) := by
  obtain ⟨⟨raw, rest'⟩, htake, hs⟩ := Option.map_eq_some_iff.mp h
  cases hs
  obtain ⟨hstop, hslice, hrest⟩ := Scan.take_drop hpos htake
  refine ⟨?_, hstop, hrest⟩
  rw [Codec.readScalar, Codec.ensure_eq_ok (Size.addSat_le hstop), Codec.slice, hslice]
  rfl

theorem Layout.readText_scan {width limit : Nat} {value : Value}
    (h : Scan.text width limit (buf.drop position) = some (value, rest)) :
    position + width ≤ buf.length ∧ rest = buf.drop (position + width) ∧
      ∃ s, value = .text s ∧ Layout.readText buf position width limit = .ok s := by
  obtain ⟨⟨raw, rest'⟩, htake, hs⟩ := Option.map_eq_some_iff.mp h
  cases hs
  obtain ⟨hstop, hslice, hrest⟩ := Scan.take_drop hpos htake
  refine ⟨hstop, hrest, _, rfl, ?_⟩
  have hshort : buf.slice? position (min limit width) = some (raw.take limit) := by
    rw [Bytes.slice?, if_pos hstop, Option.some.injEq] at hslice
    rw [Bytes.slice?, if_pos (by omega), ← hslice, List.take_take]
  rw [Layout.readText, Codec.ensure_eq_ok (Size.addSat_le hstop), Codec.slice, hshort]
  rfl

/-- Reading items one after another is reading each at its multiple of the stride. -/
theorem Scan.times_eq_range {α β : Type} {read : Bytes → Option (α × Bytes)}
    {readAt : Nat → Except CodecError β} (proj : β → α) {stride : Nat}
    (hread : ∀ p a rest, p ≤ buf.length → read (buf.drop p) = some (a, rest) →
      p + stride ≤ buf.length ∧ rest = buf.drop (p + stride) ∧
        ∃ b, readAt p = .ok b ∧ proj b = a)
    {count : Nat} {items : List α} (h : Scan.times read count (buf.drop position) = some (items, rest)) :
    position + count * stride ≤ buf.length ∧ rest = buf.drop (position + count * stride) ∧
      ∃ found, (List.range count).mapM (fun k => readAt (position + k * stride)) = .ok found ∧
        found.map proj = items := by
  induction count generalizing position items with
  | zero =>
    cases h
    exact ⟨by omega, by simp, [], rfl, rfl⟩
  | succ count ih =>
    simp only [Scan.times, Option.bind_eq_some_iff, Option.map_eq_some_iff] at h
    obtain ⟨⟨a, behind⟩, ha, ⟨as, last⟩, htimes, hitems⟩ := h
    cases hitems
    obtain ⟨hstop, rfl, b, hb, rfl⟩ := hread position a behind hpos ha
    obtain ⟨hle, hrest, found, hfound, rfl⟩ := ih hstop htimes
    have hmove : ∀ k, position + stride + k * stride = position + (k + 1) * stride := by
      intro k
      rw [Nat.succ_mul]
      omega
    rw [hmove] at hle hrest
    refine ⟨hle, hrest, b :: found, ?_, rfl⟩
    rw [List.range_succ_eq_map, List.mapM_cons, Nat.zero_mul, Nat.add_zero, hb]
    simp only [List.mapM_map, Function.comp_def, Nat.succ_eq_add_one, ← hmove]
    rw [hfound]
    rfl

end

/-! ## Build order -/

theorem Fields.set_of_not_mem {α : Type} {fields : Fields α} {name : String}
    (h : name ∉ fields.names) (value : α) :
    fields.set name value = ⟨fields.entries ++ [(name, value)]⟩ := by
  obtain ⟨entries⟩ := fields
  rw [Fields.set, Fields.mk.injEq]
  induction entries with
  | nil => rfl
  | cons entry rest ih =>
    simp only [Fields.names, List.map_cons, List.mem_cons, not_or] at h
    rw [Fields.setEntry, if_neg (Ne.symm h.1), ih h.2]
    rfl

/-- Values set under distinct new names one after another stand behind what was there, in that
order. -/
theorem Layout.foldl_set_eq_arrange {names : List String} {order : List Nat}
    (hnames : names.Nodup) (horder : order.Nodup) (values : List Value) (record : Record)
    (hfree : ∀ i ∈ order, ∀ name, names[i]? = some name → name ∉ record.names) :
    order.foldl (fun record i =>
        match names[i]?, values[i]? with
        | some name, some value => record.set name value
        | _, _ => record) record =
      (⟨record.entries ++ (Record.arrange names order values).entries⟩ : Record) := by
  induction order generalizing record with
  | nil => simp [Record.arrange]
  | cons i order ih =>
    obtain ⟨hi, horder⟩ := List.nodup_cons.mp horder
    rw [List.foldl_cons]
    cases hname : names[i]? with
    | none =>
      rw [ih horder record fun j hj => hfree j (by simp [hj])]
      simp [Record.arrange, hname]
    | some name =>
      cases hvalue : values[i]? with
      | none =>
        rw [ih horder record fun j hj => hfree j (by simp [hj])]
        simp [Record.arrange, hname, hvalue]
      | some value =>
        dsimp only
        rw [Fields.set_of_not_mem (hfree i (by simp) name hname), ih horder]
        · simp [Record.arrange, hname, hvalue]
        · intro j hj other hother
          have hold := hfree j (by simp [hj]) other hother
          have hne : other ≠ name := by
            rintro rfl
            have hj' := (List.getElem?_eq_some_iff.mp hother).1
            have := (List.getElem?_inj hj' hnames).mp (hother.trans hname.symm)
            exact hi (this ▸ hj)
          simp only [Fields.names, List.map_append, List.map_cons, List.map_nil, List.mem_append,
            List.mem_singleton, not_or]
          exact ⟨hold, hne⟩

/-- Values set under distinct names one after another stand in that order. -/
theorem Layout.assembleRecord_eq_arrange {names : List String} {order : List Nat}
    (hnames : names.Nodup) (horder : order.Nodup) (values : List Value) :
    Layout.assembleRecord names order values = Record.arrange names order values := by
  have hempty : ∀ name : String, name ∉ (Fields.empty : Record).names := by
    simp [Fields.empty, Fields.names]
  refine (foldl_set_eq_arrange hnames horder values _ fun _ _ name _ => hempty name).trans ?_
  simp [Fields.empty]

/-! ## Layouts -/

/-- What the left-to-right reader reads behind a position, `decodeFrom` reads at that position. -/
def Layout.Reads (layout : Layout) : Prop :=
  ∀ (buf : Bytes) (base : Nat) (record : Record) (rest : Bytes), buf.length < Size.limit →
    base ≤ buf.length → layout.scan? (buf.drop base) = some (record, rest) →
    ∃ length, layout.decodeFrom buf base = .ok (record, length) ∧
      layout.staticSize ≤ length ∧ (layout.isDynamic = false → length = layout.staticSize) ∧
      base + length ≤ buf.length ∧ rest = buf.drop (base + length)

section

variable {buf rest : Bytes} {position : Nat} (hlt : buf.length < Size.limit)
  (hpos : position ≤ buf.length)
include hlt hpos

theorem ElementCodec.decode_scan? {element : ElementCodec Layout} (hstrided : element.Strided)
    (hnested : ∀ inner ∈ element.nested, inner.Reads) {count : Nat} {value : Value}
    (h : element.scan? count (buf.drop position) = some (value, rest)) :
    Layout.decodeElements element buf position count = .ok value ∧
      position + count * element.size ≤ buf.length ∧
      rest = buf.drop (position + count * element.size) := by
  cases element with
  | scalar type =>
    by_cases hbyte : type = .u8
    · subst hbyte
      rw [ElementCodec.scan?] at h
      obtain ⟨⟨raw, rest'⟩, htake, hs⟩ := Option.map_eq_some_iff.mp h
      cases hs
      obtain ⟨hstop, hslice, hrest⟩ := Scan.take_drop hpos htake
      have hsize : count * Primitive.u8.width = count := Nat.mul_one count
      rw [ElementCodec.size, hsize]
      refine ⟨?_, hstop, hrest⟩
      rw [Layout.decodeElements, Layout.readScalars, Layout.ensureElements_eq_ok hlt (by omega)]
      simp only [Codec.slice, hslice]
      rfl
    · rw [ElementCodec.scan?.eq_2 _ _ _ hbyte] at h
      obtain ⟨⟨items, rest'⟩, htimes, hs⟩ := Option.map_eq_some_iff.mp h
      cases hs
      obtain ⟨hle, hrest, found, hfound, hitems⟩ := Scan.times_eq_range hpos id
        (fun p s rest hp hs => by
          obtain ⟨hread, hstop, hrest⟩ := Codec.readScalar_scan hp hs
          exact ⟨hstop, hrest, s, hread, rfl⟩) htimes
      refine ⟨?_, hle, hrest⟩
      rw [List.map_id] at hitems
      rw [Layout.decodeElements, Layout.readScalars, Layout.ensureElements_eq_ok hlt hle, hfound,
        hitems]
      · rfl
      · exact hbyte
  | struct layout =>
    have hreads := hnested layout (by simp [ElementCodec.nested])
    rw [ElementCodec.scan?] at h
    obtain ⟨⟨records, rest'⟩, htimes, hs⟩ := Option.map_eq_some_iff.mp h
    cases hs
    obtain ⟨hle, hrest, found, hfound, hitems⟩ := Scan.times_eq_range hpos Prod.fst
      (fun p record rest hp hscan => by
        obtain ⟨length, hdecode, -, hstatic, hstop, hrest⟩ := hreads buf p record rest hlt hp hscan
        rw [hstatic hstrided.1] at hdecode hstop hrest
        exact ⟨hstop, hrest, (record, layout.staticSize), hdecode, rfl⟩) htimes
    refine ⟨?_, hle, hrest⟩
    rw [Layout.decodeElements, Layout.ensureElements_eq_ok hlt hle, hfound, ← hitems]
    simp
    rfl

/-- A field is read at its position, and takes its fixed width and its span. -/
theorem FieldCodec.decode_scan? {codec : FieldCodec Layout} (hsized : codec.Sized)
    (hnested : ∀ inner ∈ codec.nested, inner.Reads) {counts : List Nat} (name : String)
    {value : Value} (h : codec.scan? counts (buf.drop position) = some (value, rest)) :
    ∃ span, Layout.decodeField codec name buf position counts = .ok (value, span) ∧
      codec.Spans span ∧ position + codec.staticWidth + span ≤ buf.length ∧
      rest = buf.drop (position + codec.staticWidth + span) := by
  cases codec with
  | scalar type =>
    rw [FieldCodec.scan?] at h
    obtain ⟨⟨s, rest'⟩, hscan, hs⟩ := Option.map_eq_some_iff.mp h
    cases hs
    obtain ⟨hread, hstop, hrest⟩ := Codec.readScalar_scan hpos hscan
    refine ⟨0, ?_, fun _ => rfl, hstop, hrest⟩
    rw [Layout.decodeField, hread]
    rfl
  | text width =>
    cases width with
    | fixed capacity =>
      rw [FieldCodec.scan?] at h
      obtain ⟨hstop, hrest, s, rfl, hread⟩ := Layout.readText_scan hpos h
      refine ⟨0, ?_, fun _ => rfl, hstop, hrest⟩
      rw [Layout.decodeField, hread]
      rfl
    | counted source =>
      rw [FieldCodec.scan?] at h
      obtain ⟨hstop, hrest, s, rfl, hread⟩ := Layout.readText_scan hpos h
      have hexact : Size.addSat (counts.getD source 0) 1 = counts.getD source 0 + 1 :=
        Nat.min_eq_left (by unfold Size.largest; omega)
      have hmove : position + (counts.getD source 0 + 1) =
          position + FieldCodec.staticWidth (.text (.counted source)) + counts.getD source 0 := by
        rw [FieldCodec.staticWidth]
        omega
      rw [hmove] at hstop hrest
      refine ⟨counts.getD source 0, ?_, by simp [FieldCodec.Spans, FieldCodec.span?], hstop, hrest⟩
      rw [Layout.decodeField]
      simp only [hexact, hread]
      rfl
  | array element length =>
    rw [FieldCodec.scan?] at h
    obtain ⟨hread, hstop, hrest⟩ := ElementCodec.decode_scan? hlt hpos hsized.1 hnested h
    rw [Nat.mul_comm] at hstop hrest
    refine ⟨0, ?_, fun _ => rfl, hstop, hrest⟩
    rw [Layout.decodeField, hread]
    rfl
  | list element source =>
    rw [FieldCodec.scan?] at h
    obtain ⟨hread, hstop, hrest⟩ := ElementCodec.decode_scan? hlt hpos hsized hnested h
    have hscaled : Codec.scaled name (counts.getD source 0) element.size =
        .ok (counts.getD source 0 * element.size) := by
      rw [Codec.scaled, Size.mul?_eq_some_iff.mpr ⟨rfl, by omega⟩]
    refine ⟨counts.getD source 0 * element.size, ?_, by simp [FieldCodec.Spans, FieldCodec.span?],
      hstop, hrest⟩
    rw [Layout.decodeField]
    simp only [hscaled]
    show (do
      let value ← Layout.decodeElements element buf position (counts.getD source 0)
      pure (value, counts.getD source 0 * element.size) : Except CodecError (Value × Nat)) = _
    rw [hread]
    rfl
  | struct layout =>
    have hreads := hnested layout (by simp [FieldCodec.nested])
    rw [FieldCodec.scan?] at h
    obtain ⟨⟨record, rest'⟩, hscan, hs⟩ := Option.map_eq_some_iff.mp h
    cases hs
    obtain ⟨length, hread, hle, hstatic, hstop, hrest⟩ := hreads buf position record rest hlt hpos hscan
    have hmove : position + (FieldCodec.struct layout).staticWidth + (length - layout.staticSize) =
        position + length := by
      rw [FieldCodec.staticWidth]
      omega
    refine ⟨length - layout.staticSize, ?_, fun hspan => ?_, hmove ▸ hstop, hmove ▸ hrest⟩
    · rw [Layout.decodeField, hread]
      show (do
        let span ← Codec.spanOf layout length
        pure (Value.record record, span) : Except CodecError (Value × Nat)) = _
      rw [Codec.spanOf, if_pos hle]
      rfl
    · rw [hstatic (by simpa [FieldCodec.span?] using hspan), Nat.sub_self]

end

theorem Value.countOf_eq {value : Value} {count : Nat} (h : value.count? = some count)
    (name : String) : Codec.countOf name value = .ok count := by
  obtain ⟨n, hn, hcount⟩ := Option.bind_eq_some_iff.mp h
  rw [Codec.countOf, hn]
  by_cases hneg : n < 0
  · simp [hneg] at hcount
  · rw [if_neg hneg, Option.some.injEq] at hcount
    simp only [hcount, if_neg hneg]

namespace Layout

/-- Scalars are read as a byte string or as an array of scalars. -/
theorem readScalars_cases {type : Primitive} {buf : Bytes} {position count : Nat} {value : Value}
    (h : readScalars type buf position count = .ok value) :
    (∃ raw, value = .bytes raw) ∨ ∃ items : List Scalar, value = .array (items.map .scalar) := by
  unfold readScalars at h
  obtain ⟨-, -, h⟩ := bind_eq_ok_iff.mp h
  split at h
  · obtain ⟨raw, -, h⟩ := bind_eq_ok_iff.mp h
    cases h
    exact .inl ⟨raw, rfl⟩
  · obtain ⟨items, -, h⟩ := bind_eq_ok_iff.mp h
    cases h
    exact .inr ⟨items, rfl⟩

/-- The first field is read, then the count that it carries, then the fields behind it. -/
theorem decodeFields_cons (field : FieldLayout Layout) (fields : List (FieldLayout Layout))
    (buf : Bytes) (base : Nat) (spans counts : List Nat) :
    decodeFields (field :: fields) buf base spans counts =
      (Codec.locate field.name base field.offset spans >>= fun position =>
        decodeField field.codec field.name buf position counts >>= fun read =>
        (if field.isSizeField then Codec.countOf field.name read.1 else .ok 0) >>= fun count =>
        decodeFields fields buf base (spans ++ [read.2]) (counts ++ [count]) >>= fun later =>
        pure (read.1 :: later.1, later.2)) := by
  obtain ⟨slot, codec⟩ := field
  rw [decodeFields]
  -- the two branches share their tail, which stands in both
  by_cases hsize : slot.isSizeField = true
  · simp only [if_pos hsize]
  · simp only [if_neg hsize]

theorem decodeFields_cons_eq_ok_iff {field : FieldLayout Layout}
    {fields : List (FieldLayout Layout)} {buf : Bytes} {base : Nat} {spans counts : List Nat}
    {values : List Value} {all : List Nat} :
    decodeFields (field :: fields) buf base spans counts = .ok (values, all) ↔
      ∃ position value span count later,
        Codec.locate field.name base field.offset spans = .ok position ∧
        decodeField field.codec field.name buf position counts = .ok (value, span) ∧
        (if field.isSizeField then Codec.countOf field.name value else .ok 0) = .ok count ∧
        decodeFields fields buf base (spans ++ [span]) (counts ++ [count]) = .ok (later, all) ∧
        value :: later = values := by
  rw [decodeFields_cons]
  simp only [bind_eq_ok_iff, pure_eq_ok_iff, Prod.exists, Prod.mk.injEq]
  constructor
  · rintro ⟨position, hposition, value, span, hvalue, count, hcount, later, _, hlater, rfl, rfl⟩
    exact ⟨position, value, span, count, later, hposition, hvalue, hcount, hlater, rfl⟩
  · rintro ⟨position, value, span, count, later, hposition, hvalue, hcount, hlater, rfl⟩
    exact ⟨position, hposition, value, span, hvalue, count, hcount, later, all, hlater, rfl, rfl⟩

theorem decodeFrom_eq (layout : Layout) (buf : Bytes) (base : Nat) :
    layout.decodeFrom buf base = (do
      let (values, spans) ← decodeFields layout.fields buf base [] []
      let length ← Codec.locate layout.name 0 layout.stop spans
      return (assembleRecord (layout.fields.map (·.name)) layout.buildOrder values, length)) := by
  cases layout
  rw [decodeFrom]

theorem decodeFrom_eq_ok_iff {layout : Layout} {buf : Bytes} {base length : Nat} {record : Record} :
    layout.decodeFrom buf base = .ok (record, length) ↔
      ∃ values spans, decodeFields layout.fields buf base [] [] = .ok (values, spans) ∧
        Codec.locate layout.name 0 layout.stop spans = .ok length ∧
        assembleRecord (layout.fields.map (·.name)) layout.buildOrder values = record := by
  rw [decodeFrom_eq]
  simp only [bind_eq_ok_iff, pure_eq_ok_iff, Prod.exists, Prod.mk.injEq]
  constructor
  · rintro ⟨values, spans, hfields, length', hlength, rfl, rfl⟩
    exact ⟨values, spans, hfields, hlength, rfl⟩
  · rintro ⟨values, spans, hfields, hlength, rfl⟩
    exact ⟨values, spans, hfields, length, hlength, rfl, rfl⟩

/-- Fields that stand one behind the other are read one after another. -/
theorem decodeFields_scanFields? {index : Nat} {offset stop : Offset}
    {fields : List (FieldLayout Layout)} (htiled : Tiled index offset fields stop)
    (hsized : ∀ field ∈ fields, field.codec.Sized)
    (hnested : ∀ field ∈ fields, ∀ inner ∈ field.codec.nested, inner.Reads) {buf : Bytes}
    (hlt : buf.length < Size.limit) {base position : Nat} {spans counts : List Nat}
    (hindex : index = spans.length) (hstands : offset.Stands base spans position)
    (hpos : position ≤ buf.length) {values : List Value} {rest : Bytes}
    (h : scanFields? fields counts (buf.drop position) = some (values, rest)) :
    values.length = fields.length ∧ ∃ all last,
      decodeFields fields buf base spans counts = .ok (values, all) ∧
        stop.Stands base all last ∧ last ≤ buf.length ∧ rest = buf.drop last := by
  induction htiled generalizing position spans counts values with
  | nil index stop =>
    rw [scanFields?] at h
    cases h
    exact ⟨rfl, spans, position, rfl, hstands, hpos, rfl⟩
  | @cons index field fields stop label _ ih =>
    simp only [scanFields?_cons, Option.bind_eq_some_iff, Option.map_eq_some_iff] at h
    obtain ⟨⟨value, behind⟩, hvalue, count, hcount, ⟨later, last⟩, hlater, hs⟩ := h
    cases hs
    obtain ⟨span, hread, hspan, hstop, rfl⟩ := FieldCodec.decode_scan? hlt hpos
      (hsized field (by simp)) (hnested field (by simp)) field.name hvalue
    have hnext := hstands.behind hspan label
    rw [← hindex] at hnext
    obtain ⟨hlength, all, last, hrest, hlast⟩ := ih (fun other hother => hsized other (by simp [hother]))
      (fun other hother => hnested other (by simp [hother])) (by simp [hindex]) hnext hstop hlater
    have hcounted : (if field.isSizeField then Codec.countOf field.name value else .ok 0) =
        .ok count := by
      by_cases hsize : field.isSizeField = true
      · rw [if_pos hsize] at hcount ⊢
        exact Value.countOf_eq hcount field.name
      · rw [if_neg hsize] at hcount ⊢
        exact congrArg Except.ok (Option.some.inj hcount)
    refine ⟨by simp [hlength], all, last, ?_, hlast⟩
    exact decodeFields_cons_eq_ok_iff.mpr ⟨position, value, span, count, later,
      Codec.locate_of_stands hstands (by omega), hread, hcounted, hrest, rfl⟩

/-- What the left-to-right reader reads, `decodeFrom` reads. -/
theorem WellFormed.reads {layout : Layout} (h : layout.WellFormed) : layout.Reads := by
  induction h with
  | @intro layout coherent _ ih =>
    intro buf base record rest hlt hbase hscan
    rw [scan?_eq] at hscan
    obtain ⟨⟨head, behind⟩, htake, hfields⟩ := Option.bind_eq_some_iff.mp hscan
    obtain ⟨⟨values, rest'⟩, hvalues, hs⟩ := Option.map_eq_some_iff.mp hfields
    cases hs
    obtain ⟨hstart, -, rfl⟩ := Scan.take_drop hbase htake
    obtain ⟨hlength, spans, last, hdecode, hstands, hlast, hrest⟩ := decodeFields_scanFields?
      coherent.tiled coherent.sized
      (fun field hfield inner hinner => ih inner (mem_nested hfield hinner)) hlt rfl
      (Offset.stands_start base layout.start) hstart hvalues
    have hposition := hstands.position
    have hle := layout.stop.constant_le_total spans
    refine ⟨layout.stop.total spans, ?_, hle, fun hdynamic => ?_, hposition ▸ hlast,
      hposition ▸ hrest⟩
    · refine decodeFrom_eq_ok_iff.mpr ⟨values, spans, hdecode, ?_, ?_⟩
      · exact Codec.locate_eq_ok_iff.mpr ⟨Nat.zero_add _, by omega⟩
      · exact assembleRecord_eq_arrange coherent.names
          (coherent.order.nodup_iff.mpr List.nodup_range) values
    · rw [Offset.total, terms_stop_eq_nil hdynamic]
      rfl

end Layout

end PacketWire
