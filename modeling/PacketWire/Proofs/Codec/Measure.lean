import PacketWire.Codec.Measure
import PacketWire.Proofs.Codec.Read

/-!
# Measuring by size fields alone

The length that measuring finds is the length that reading finds, though measuring looks at the
size fields only. More bytes behind a buffer change an answer in one way: where the length was not
known it may be known, and it then lies beyond the buffer that did not tell it.

* `Layout.WellFormed.measures`: a record that can be read has the length that is measured.
* `Layout.WellFormed.stable`: a length or a fault stays, whatever follows.
* `Layout.WellFormed.outlasts`: a length that is told later is beyond what was there.
-/

namespace PacketWire

namespace Layout

/-! ## One field at a time -/

theorem measure_eq (layout : Layout) (buf : Bytes) (base : Nat) :
    layout.measure buf base = do
      match ← measureFields layout.fields buf base [] [] with
      | some spans => return some (← Codec.locate layout.name 0 layout.stop spans)
      | none => return none := by
  cases layout
  rfl

theorem measureFields_cons (field : FieldLayout Layout) (fields : List (FieldLayout Layout))
    (buf : Bytes) (base : Nat) (spans counts : List Nat) :
    measureFields (field :: fields) buf base spans counts = do
      let position ← Codec.locate field.name base field.offset spans
      match ← measureField field.codec field.toSlot buf position counts with
      | some (span, count) => measureFields fields buf base (spans ++ [span]) (counts ++ [count])
      | none => return none := by
  cases field
  rfl

theorem measure_eq_some_iff {layout : Layout} {buf : Bytes} {base length : Nat} :
    layout.measure buf base = .ok (some length) ↔
      ∃ spans, measureFields layout.fields buf base [] [] = .ok (some spans) ∧
        Codec.locate layout.name 0 layout.stop spans = .ok length := by
  rw [measure_eq, bind_eq_ok_iff]
  constructor
  · rintro ⟨_ | spans, hfields, h⟩
    · cases h
    · obtain ⟨length', hlength, hs⟩ := bind_eq_ok_iff.mp h
      cases hs
      exact ⟨spans, hfields, hlength⟩
  · rintro ⟨spans, hfields, hlength⟩
    exact ⟨some spans, hfields, bind_eq_ok_iff.mpr ⟨length, hlength, rfl⟩⟩

theorem measureFields_cons_eq_some_iff {field : FieldLayout Layout}
    {fields : List (FieldLayout Layout)} {buf : Bytes} {base : Nat} {spans counts all : List Nat} :
    measureFields (field :: fields) buf base spans counts = .ok (some all) ↔
      ∃ position span count, Codec.locate field.name base field.offset spans = .ok position ∧
        measureField field.codec field.toSlot buf position counts = .ok (some (span, count)) ∧
        measureFields fields buf base (spans ++ [span]) (counts ++ [count]) = .ok (some all) := by
  rw [measureFields_cons, bind_eq_ok_iff]
  constructor
  · rintro ⟨position, hposition, h⟩
    obtain ⟨_ | ⟨span, count⟩, hfield, hrest⟩ := bind_eq_ok_iff.mp h
    · cases hrest
    · exact ⟨position, span, count, hposition, hfield, hrest⟩
  · rintro ⟨position, span, count, hposition, hfield, hrest⟩
    exact ⟨position, hposition, bind_eq_ok_iff.mpr ⟨some (span, count), hfield, hrest⟩⟩

theorem measureField_scalar (type : Primitive) (slot : Slot) (buf : Bytes) (position : Nat)
    (counts : List Nat) :
    measureField (.scalar type) slot buf position counts =
      if slot.isSizeField then
        if buf.length < Size.addSat position type.width then .ok none
        else do
          let s ← Codec.readScalar type buf position
          return some (0, ← Codec.countOf slot.name (.scalar s))
      else .ok (some (0, 0)) := by
  rw [measureField]
  cases slot.isSizeField <;> rfl

/-! ## Agreement with reading -/

/-- Measuring a record finds the length that reading it finds. -/
def Measures (layout : Layout) : Prop :=
  ∀ (buf : Bytes) (base : Nat) (record : Record) (length : Nat),
    layout.decodeFrom buf base = .ok (record, length) →
    layout.measure buf base = .ok (some length)

theorem measureField_of_decodeField {codec : FieldCodec Layout} {slot : Slot} {buf : Bytes}
    {position : Nat} {counts : List Nat} {value : Value} {span count : Nat}
    (hscalar : slot.isSizeField = true → ∃ type, codec = .scalar type)
    (hnested : ∀ inner ∈ codec.nested, inner.Measures)
    (hcounts : ∀ source, counts.getD source 0 < Size.limit)
    (hvalue : decodeField codec slot.name buf position counts = .ok (value, span))
    (hcount : (if slot.isSizeField then Codec.countOf slot.name value else .ok 0) = .ok count) :
    measureField codec slot buf position counts = .ok (some (span, count)) := by
  have hzero : (∀ type, codec ≠ .scalar type) → count = 0 := by
    intro hne
    rw [if_neg fun hsize => (hscalar hsize).elim hne] at hcount
    exact (Except.ok.inj hcount).symm
  cases codec with
  | scalar type =>
    simp only [decodeField, bind_eq_ok_iff, pure_eq_ok_iff, Prod.mk.injEq] at hvalue
    obtain ⟨s, hread, rfl, rfl⟩ := hvalue
    rw [measureField_scalar]
    by_cases hsize : slot.isSizeField = true
    · rw [if_pos hsize] at hcount ⊢
      have hlong := Codec.readScalar_eq_ok hread
      rw [if_neg (by omega), hread]
      simp only [bind, Except.bind, hcount]
      rfl
    · rw [if_neg hsize] at hcount ⊢
      rw [Except.ok.inj hcount]
  | text width =>
    cases width with
    | fixed capacity =>
      simp only [decodeField, bind_eq_ok_iff, pure_eq_ok_iff, Prod.mk.injEq] at hvalue
      obtain ⟨s, -, rfl, rfl⟩ := hvalue
      rw [measureField, hzero (by simp)]
    | counted source =>
      simp only [decodeField, bind_eq_ok_iff, pure_eq_ok_iff, Prod.mk.injEq] at hvalue
      obtain ⟨s, -, rfl, rfl⟩ := hvalue
      have hscaled : Codec.scaled slot.name (counts.getD source 0) 1 =
          .ok (counts.getD source 0) := by
        rw [Codec.scaled, Size.mul?_eq_some_iff.mpr ⟨Nat.mul_one _, hcounts source⟩]
      rw [measureField, hzero (by simp)]
      simp only [hscaled]
      rfl
  | array element length =>
    simp only [decodeField, bind_eq_ok_iff, pure_eq_ok_iff, Prod.mk.injEq] at hvalue
    obtain ⟨value, -, rfl, rfl⟩ := hvalue
    rw [measureField, hzero (by simp)]
  | list element source =>
    simp only [decodeField, bind_eq_ok_iff, pure_eq_ok_iff, Prod.mk.injEq] at hvalue
    obtain ⟨span, hspan, value, -, rfl, rfl⟩ := hvalue
    rw [measureField, hzero (by simp), hspan]
    rfl
  | struct layout =>
    simp only [decodeField, bind_eq_ok_iff, pure_eq_ok_iff, Prod.mk.injEq, Prod.exists] at hvalue
    obtain ⟨inner, length, hinner, span, hspan, rfl, rfl⟩ := hvalue
    rw [measureField, hzero (by simp)]
    by_cases hdynamic : layout.isDynamic = true
    · rw [if_pos hdynamic, hnested layout (by simp [FieldCodec.nested]) buf position inner length hinner]
      simp only [bind, Except.bind, hspan]
      rfl
    · obtain ⟨values, spans, -, hlength, -⟩ := decodeFrom_eq_ok_iff.mp hinner
      have hfixed := Codec.length_of_locate_stop (Bool.eq_false_iff.mpr hdynamic) hlength
      rw [if_neg hdynamic, ← (Codec.spanOf_eq_ok_iff.mp hspan).2, hfixed, Nat.sub_self]

/-- The count of one more field is a size as well, whether the field carries one or not. -/
theorem lt_limit_append {counts : List Nat} (h : ∀ n ∈ counts, n < Size.limit) {slot : Slot}
    {value : Value} {count : Nat}
    (hcount : (if slot.isSizeField then Codec.countOf slot.name value else .ok 0) = .ok count) :
    ∀ n ∈ counts ++ [count], n < Size.limit := by
  intro n hn
  rcases List.mem_append.mp hn with hn | hn
  · exact h n hn
  · rw [List.mem_singleton.mp hn]
    split at hcount
    · exact Codec.countOf_lt hcount
    · cases hcount
      decide

/-- Counts that are sizes are sizes wherever one looks them up. -/
theorem getD_lt_limit {counts : List Nat} (h : ∀ n ∈ counts, n < Size.limit) (source : Nat) :
    counts.getD source 0 < Size.limit := by
  rw [List.getD_eq_getElem?_getD]
  cases hs : counts[source]? with
  | none => decide
  | some n => exact h n (List.mem_of_getElem? hs)

theorem measureFields_of_decodeFields {fields : List (FieldLayout Layout)} {buf : Bytes}
    {base : Nat} {spans counts all : List Nat} {values : List Value}
    (hscalar : ∀ field ∈ fields, field.isSizeField = true → ∃ type, field.codec = .scalar type)
    (hnested : ∀ field ∈ fields, ∀ inner ∈ field.codec.nested, inner.Measures)
    (hcounts : ∀ n ∈ counts, n < Size.limit)
    (h : decodeFields fields buf base spans counts = .ok (values, all)) :
    measureFields fields buf base spans counts = .ok (some all) := by
  induction fields generalizing spans counts values with
  | nil =>
    rw [decodeFields] at h
    cases h
    rw [measureFields]
  | cons field fields ih =>
    obtain ⟨position, value, span, count, later, hposition, hvalue, hcount, hlater, rfl⟩ :=
      decodeFields_cons_eq_ok_iff.mp h
    have hrest := ih (fun other hother => hscalar other (by simp [hother]))
      (fun other hother => hnested other (by simp [hother])) (lt_limit_append hcounts hcount) hlater
    exact measureFields_cons_eq_some_iff.mpr ⟨position, span, count, hposition,
      measureField_of_decodeField (hscalar field (by simp)) (hnested field (by simp))
        (getD_lt_limit hcounts) hvalue hcount, hrest⟩

/-- A record that can be read has the length that is measured. -/
theorem WellFormed.measures {layout : Layout} (h : layout.WellFormed) : layout.Measures := by
  induction h with
  | @intro layout coherent _ ih =>
    intro buf base record length hdecode
    obtain ⟨values, spans, hfields, hlength, -⟩ := decodeFrom_eq_ok_iff.mp hdecode
    refine measure_eq_some_iff.mpr ⟨spans, ?_, hlength⟩
    exact measureFields_of_decodeFields (fun _ hfield => coherent.codec_of_mem hfield)
      (fun field hfield inner hinner => ih inner (mem_nested hfield hinner)) (by simp) hfields

/-! ## More bytes -/

/-- An answer that more bytes behind a buffer do not change: a length, or a fault of a buffer that
is not as long as sizes go. -/
def Settled {α : Type} (buf : Bytes) : Except CodecError (Option α) → Prop
  | .ok (some _) => True
  | .ok none => False
  | .error _ => buf.length < Size.largest

/-- A settled answer of measuring stays. -/
def Stable (layout : Layout) : Prop :=
  ∀ (buf more : Bytes) (base : Nat), Settled buf (layout.measure buf base) →
    layout.measure (buf ++ more) base = layout.measure buf base

theorem readScalar_append {type : Primitive} {buf : Bytes} {position : Nat}
    (h : position + type.width ≤ buf.length) (more : Bytes) :
    Codec.readScalar type (buf ++ more) position = Codec.readScalar type buf position := by
  have hlong : position + type.width ≤ (buf ++ more).length := by
    rw [List.length_append]
    omega
  have hslice : Bytes.slice? (buf ++ more) position type.width = buf.slice? position type.width := by
    rw [Bytes.slice?, Bytes.slice?, if_pos hlong, if_pos h,
      List.drop_append_of_le_length (by omega),
      List.take_append_of_le_length (by rw [List.length_drop]; omega)]
  rw [Codec.readScalar, Codec.readScalar, Codec.ensure_eq_ok (Size.addSat_le hlong),
    Codec.ensure_eq_ok (Size.addSat_le h), Codec.slice, Codec.slice, hslice]

theorem measureField_append {codec : FieldCodec Layout} {slot : Slot} {buf : Bytes}
    {position : Nat} {counts : List Nat} (hnested : ∀ inner ∈ codec.nested, inner.Stable)
    (h : Settled buf (measureField codec slot buf position counts)) (more : Bytes) :
    measureField codec slot (buf ++ more) position counts =
      measureField codec slot buf position counts := by
  cases codec with
  | scalar type =>
    rw [measureField_scalar] at h ⊢
    rw [measureField_scalar]
    by_cases hsize : slot.isSizeField = true
    · rw [if_pos hsize] at h ⊢
      rw [if_pos hsize]
      by_cases hshort : buf.length < Size.addSat position type.width
      · rw [if_pos hshort] at h
        exact h.elim
      · -- a buffer that seems to hold the field but does not is as long as sizes go
        have hfits : position + type.width ≤ buf.length := by
          refine Decidable.byContradiction fun hlong => ?_
          have hread : Codec.readScalar type buf position = .error .outOfBounds := by
            rw [Codec.readScalar, Codec.ensure_eq_ok (Nat.not_lt.mp hshort), Codec.slice,
              Bytes.slice?, if_neg hlong]
            rfl
          rw [if_neg hshort, hread] at h
          exact hlong ((Size.le_addSat_iff h).mp (Nat.not_lt.mp hshort))
        have hshort' : ¬(buf ++ more).length < Size.addSat position type.width := by
          rw [List.length_append]
          omega
        rw [if_neg hshort, if_neg hshort', readScalar_append hfits]
    · rw [if_neg hsize, if_neg hsize]
  | text width => cases width <;> rw [measureField, measureField]
  | array element length => rw [measureField, measureField]
  | list element source => rw [measureField, measureField]
  | struct layout =>
    rw [measureField] at h ⊢
    rw [measureField]
    by_cases hdynamic : layout.isDynamic = true
    · rw [if_pos hdynamic] at h ⊢
      rw [if_pos hdynamic]
      have hstable := hnested layout (by simp [FieldCodec.nested]) buf more position
      cases hmeasure : layout.measure buf position with
      | error fault =>
        rw [hmeasure] at h hstable
        rw [hstable h]
      | ok found =>
        rw [hmeasure] at h hstable
        cases found with
        | none => exact h.elim
        | some length => rw [hstable trivial]
    · rw [if_neg hdynamic, if_neg hdynamic]

theorem measureFields_append {fields : List (FieldLayout Layout)} {buf : Bytes} {base : Nat}
    {spans counts : List Nat}
    (hnested : ∀ field ∈ fields, ∀ inner ∈ field.codec.nested, inner.Stable)
    (h : Settled buf (measureFields fields buf base spans counts)) (more : Bytes) :
    measureFields fields (buf ++ more) base spans counts =
      measureFields fields buf base spans counts := by
  induction fields generalizing spans counts with
  | nil => rw [measureFields, measureFields]
  | cons field fields ih =>
    rw [measureFields_cons] at h ⊢
    rw [measureFields_cons]
    cases hposition : Codec.locate field.name base field.offset spans with
    | error fault => rfl
    | ok position =>
      rw [hposition] at h
      have hstable : Settled buf (measureField field.codec field.toSlot buf position counts) →
          measureField field.codec field.toSlot (buf ++ more) position counts =
            measureField field.codec field.toSlot buf position counts :=
        fun h => measureField_append (hnested field (by simp)) h more
      cases hfield : measureField field.codec field.toSlot buf position counts with
      | error fault =>
        simp only [bind, Except.bind, hfield] at h hstable ⊢
        rw [hstable h]
      | ok found =>
        cases found with
        | none =>
          simp only [bind, Except.bind, hfield] at h
          exact h.elim
        | some pair =>
          simp only [bind, Except.bind, hfield] at h hstable ⊢
          rw [hstable trivial]
          exact ih (fun other hother => hnested other (by simp [hother])) h

/-- A length or a fault that measuring finds stays, whatever follows. -/
theorem WellFormed.stable {layout : Layout} (h : layout.WellFormed) : layout.Stable := by
  induction h with
  | @intro layout coherent _ ih =>
    intro buf more base h
    have hnested : ∀ field ∈ layout.fields, ∀ inner ∈ field.codec.nested, inner.Stable :=
      fun field hfield inner hinner => ih inner (mem_nested hfield hinner)
    rw [measure_eq] at h ⊢
    rw [measure_eq]
    cases hfields : measureFields layout.fields buf base [] [] with
    | error fault =>
      rw [hfields] at h
      rw [measureFields_append hnested (by rw [hfields]; exact h), hfields]
    | ok found =>
      cases found with
      | none =>
        rw [hfields] at h
        exact h.elim
      | some spans => rw [measureFields_append hnested (by rw [hfields]; exact trivial), hfields]

/-! ## Lengths told later -/

/-- A length that only a longer buffer tells lies beyond the shorter one. -/
def Outlasts (layout : Layout) : Prop :=
  ∀ (buf more : Bytes) (base length : Nat), layout.measure buf base = .ok none →
    layout.measure (buf ++ more) base = .ok (some length) → buf.length < base + length

theorem staticSize_le_of_measure {layout : Layout} {buf : Bytes} {base length : Nat}
    (h : layout.measure buf base = .ok (some length)) : layout.staticSize ≤ length := by
  obtain ⟨spans, -, hlength⟩ := measure_eq_some_iff.mp h
  have := layout.stop.constant_le_total spans
  have := (Codec.locate_eq_ok_iff.mp hlength).1
  rw [staticSize]
  omega

theorem spans_of_measureField {codec : FieldCodec Layout} {slot : Slot} {buf : Bytes}
    {position span count : Nat} {counts : List Nat}
    (h : measureField codec slot buf position counts = .ok (some (span, count))) :
    codec.Spans span := by
  intro hspan
  cases codec with
  | scalar type =>
    rw [measureField_scalar] at h
    split at h
    · split at h
      · cases h
      · obtain ⟨s, -, hs⟩ := bind_eq_ok_iff.mp h
        obtain ⟨count', -, hcount⟩ := bind_eq_ok_iff.mp hs
        cases hcount
        rfl
    · cases h
      rfl
  | text width =>
    cases width with
    | fixed capacity =>
      rw [measureField] at h
      cases h
      rfl
    | counted source => simp [FieldCodec.span?] at hspan
  | array element length =>
    rw [measureField] at h
    cases h
    rfl
  | list element source => simp [FieldCodec.span?] at hspan
  | struct layout =>
    rw [measureField, if_neg (by simpa [FieldCodec.span?] using hspan)] at h
    cases h
    rfl

/-- Fields that are measured one after another lead from one position to a later one. -/
theorem stands_of_measureFields {index : Nat} {offset stop : Offset}
    {fields : List (FieldLayout Layout)} (htiled : Tiled index offset fields stop) {buf : Bytes}
    {base position : Nat} {spans counts all : List Nat} (hindex : index = spans.length)
    (hstands : offset.Stands base spans position)
    (h : measureFields fields buf base spans counts = .ok (some all)) :
    ∃ last, stop.Stands base all last ∧ position ≤ last := by
  induction htiled generalizing position spans counts with
  | nil index stop =>
    rw [measureFields] at h
    cases h
    exact ⟨position, hstands, Nat.le_refl _⟩
  | @cons index field fields stop label _ ih =>
    obtain ⟨found, span, count, -, hfield, hrest⟩ := measureFields_cons_eq_some_iff.mp h
    have hnext := hstands.behind (spans_of_measureField hfield) label
    rw [← hindex] at hnext
    obtain ⟨last, hlast, hle⟩ := ih (by simp [hindex]) hnext hrest
    exact ⟨last, hlast, by omega⟩

theorem measureField_none_append {codec : FieldCodec Layout} {slot : Slot} {buf more : Bytes}
    {position span count : Nat} {counts : List Nat}
    (hnested : ∀ inner ∈ codec.nested, inner.Outlasts)
    (hnone : measureField codec slot buf position counts = .ok none)
    (hsome : measureField codec slot (buf ++ more) position counts = .ok (some (span, count))) :
    buf.length < position + codec.staticWidth + span := by
  cases codec with
  | scalar type =>
    rw [measureField_scalar] at hnone
    split at hnone
    · split at hnone
      · next hshort =>
        have : Size.addSat position type.width ≤ position + type.width := Nat.min_le_left _ _
        rw [FieldCodec.staticWidth]
        omega
      · obtain ⟨s, -, hs⟩ := bind_eq_ok_iff.mp hnone
        obtain ⟨count', -, hcount⟩ := bind_eq_ok_iff.mp hs
        cases hcount
    · cases hnone
  | text width =>
    cases width with
    | fixed capacity =>
      rw [measureField] at hnone
      cases hnone
    | counted source =>
      rw [measureField] at hnone
      obtain ⟨span', -, hspan⟩ := bind_eq_ok_iff.mp hnone
      cases hspan
  | array element length =>
    rw [measureField] at hnone
    cases hnone
  | list element source =>
    rw [measureField] at hnone
    obtain ⟨span', -, hspan⟩ := bind_eq_ok_iff.mp hnone
    cases hspan
  | struct layout =>
    rw [measureField] at hnone hsome
    split at hnone
    · next hdynamic =>
      rw [if_pos hdynamic] at hsome
      obtain ⟨_ | length, hmeasure, hnone⟩ := bind_eq_ok_iff.mp hnone
      · obtain ⟨_ | length, hlonger, hsome⟩ := bind_eq_ok_iff.mp hsome
        · cases hsome
        · obtain ⟨span', hspan, hpair⟩ := bind_eq_ok_iff.mp hsome
          cases hpair
          obtain ⟨hle, hspan⟩ := Codec.spanOf_eq_ok_iff.mp hspan
          have := hnested layout (by simp [FieldCodec.nested]) buf more position length hmeasure
            hlonger
          rw [FieldCodec.staticWidth]
          omega
      · obtain ⟨span', -, hpair⟩ := bind_eq_ok_iff.mp hnone
        cases hpair
    · cases hnone

theorem measureFields_none_append {index : Nat} {offset stop : Offset}
    {fields : List (FieldLayout Layout)} (htiled : Tiled index offset fields stop)
    (hnested : ∀ field ∈ fields, ∀ inner ∈ field.codec.nested, inner.Stable ∧ inner.Outlasts)
    {buf more : Bytes} {base position : Nat} {spans counts all : List Nat}
    (hindex : index = spans.length) (hstands : offset.Stands base spans position)
    (hnone : measureFields fields buf base spans counts = .ok none)
    (hsome : measureFields fields (buf ++ more) base spans counts = .ok (some all)) :
    ∃ last, stop.Stands base all last ∧ buf.length < last := by
  induction htiled generalizing position spans counts with
  | nil index stop =>
    rw [measureFields] at hnone
    cases hnone
  | @cons index field fields stop label htiled ih =>
    obtain ⟨found, span, count, hlocate, hlonger, hrest⟩ := measureFields_cons_eq_some_iff.mp hsome
    obtain ⟨rfl, -⟩ := Codec.eq_of_locate_of_stands hlocate hstands
    have hnext := hstands.behind (spans_of_measureField hlonger) label
    rw [← hindex] at hnext
    rw [measureFields_cons, hlocate] at hnone
    cases hfield : measureField field.codec field.toSlot buf found counts with
    | error fault =>
      simp only [bind, Except.bind, hfield] at hnone
      cases hnone
    | ok pair =>
      cases pair with
      | none =>
        have hshort := measureField_none_append
          (fun inner hinner => (hnested field (by simp) inner hinner).2) hfield hlonger
        obtain ⟨last, hlast, hle⟩ := stands_of_measureFields htiled (by simp [hindex]) hnext hrest
        exact ⟨last, hlast, by omega⟩
      | some pair =>
        have hsame := measureField_append
          (fun inner hinner => (hnested field (by simp) inner hinner).1)
          (show Settled buf _ by rw [hfield]; exact trivial) more
        rw [hlonger, hfield] at hsame
        cases hsame
        simp only [bind, Except.bind, hfield] at hnone
        exact ih (fun other hother => hnested other (by simp [hother])) (by simp [hindex]) hnext
          hnone hrest

/-- A length that is told later is beyond what was there. -/
theorem WellFormed.outlasts {layout : Layout} (h : layout.WellFormed) : layout.Outlasts := by
  induction h with
  | @intro layout coherent hwell ih =>
    intro buf more base length hnone hsome
    obtain ⟨all, hlonger, hlength⟩ := measure_eq_some_iff.mp hsome
    have hfields : measureFields layout.fields buf base [] [] = .ok none := by
      rw [measure_eq] at hnone
      obtain ⟨_ | spans, hfields, hspans⟩ := bind_eq_ok_iff.mp hnone
      · exact hfields
      · obtain ⟨length', -, hlength'⟩ := bind_eq_ok_iff.mp hspans
        cases hlength'
    obtain ⟨last, hlast, hlt⟩ := measureFields_none_append coherent.tiled
      (fun field hfield inner hinner =>
        have hmem := mem_nested hfield hinner
        ⟨(hwell inner hmem).stable, ih inner hmem⟩)
      rfl (Offset.stands_start base layout.start) hfields hlonger
    have := hlast.position
    have := (Codec.locate_eq_ok_iff.mp hlength).1
    omega

end Layout

end PacketWire
