import PacketWire.Proofs.Codec.Fault

/-!
# Reading what was measured

Measuring looks at the size fields alone. Where it gives an answer, be it a length or that the
length is not known yet, reading has one reason left to fail: the bytes run out. And where the
answer is a length, they run out only if the record does not lie in the buffer as a whole.

* `Layout.measure_of_static`: a layout of fixed size is measured without a look at the buffer.
* `Layout.WellFormed.delivers`: a record that is measured and lies in the buffer is read.
-/

namespace PacketWire

/-! ## Layouts of fixed size -/

namespace Layout

theorem measureField_of_static {codec : FieldCodec Layout} {slot : Slot}
    (hspan : codec.span? = none) (hsize : slot.isSizeField = false) (buf : Bytes) (position : Nat)
    (counts : List Nat) : measureField codec slot buf position counts = .ok (some (0, 0)) := by
  cases codec with
  | scalar type => rw [measureField_scalar, hsize, if_neg Bool.false_ne_true]
  | text width =>
    cases width with
    | fixed capacity => rw [measureField]
    | counted source => cases hspan
  | array element length => rw [measureField]
  | list element source => cases hspan
  | struct layout => rw [measureField, if_neg (by simpa [FieldCodec.span?] using hspan)]

theorem measureFields_of_static {index : Nat} {offset stop : Offset}
    {fields : List (FieldLayout Layout)} (htiled : Tiled index offset fields stop)
    (hstop : stop.terms = []) (hsizes : ∀ field ∈ fields, field.isSizeField = false) {base : Nat}
    (hlt : base + stop.constant < Size.limit) (buf : Bytes) (spans counts : List Nat) :
    ∃ all, measureFields fields buf base spans counts = .ok (some all) := by
  induction htiled generalizing spans counts with
  | nil index stop => exact ⟨spans, by rw [measureFields]⟩
  | @cons index field fields stop label htiled ih =>
    obtain ⟨hterms, hspans⟩ := (Tiled.cons label htiled).terms_eq_nil_iff.mp hstop
    have hle := (Tiled.cons label htiled).constant_le
    have hlocate : Codec.locate field.name base field.offset spans =
        .ok (base + field.offset.constant) := by
      refine Codec.locate_eq_ok_iff.mpr ⟨?_, by omega⟩
      rw [Offset.total, hterms]
      rfl
    obtain ⟨all, hall⟩ := ih hstop (fun other hother => hsizes other (by simp [hother])) hlt
      (spans ++ [0]) (counts ++ [0])
    exact ⟨all, measureFields_cons_eq_some_iff.mpr ⟨_, 0, 0, hlocate,
      measureField_of_static (hspans field (by simp)) (hsizes field (by simp)) buf _ counts, hall⟩⟩

/-- A layout of fixed size is measured wherever it ends within sizes, whatever the buffer holds. -/
theorem measure_of_static {layout : Layout} (coherent : layout.Coherent)
    (hdynamic : layout.isDynamic = false) {base : Nat}
    (hlt : base + layout.staticSize < Size.limit) (buf : Bytes) :
    layout.measure buf base = .ok (some layout.staticSize) := by
  have hstop := terms_stop_eq_nil hdynamic
  have hsizes := fun field (hfield : field ∈ layout.fields) =>
    coherent.isSizeField_eq_false (coherent.span?_eq_none hdynamic) hfield
  obtain ⟨all, hall⟩ := measureFields_of_static coherent.tiled hstop hsizes hlt buf [] []
  refine measure_eq_some_iff.mpr ⟨all, hall, Codec.locate_eq_ok_iff.mpr ⟨?_, by omega⟩⟩
  rw [Offset.total, hstop, Nat.zero_add]
  rfl

/-! ## Measured layouts -/

/-- Where measuring gives an answer within sizes, reading fails only for want of bytes, and only if
the length is not known or lies beyond the buffer. -/
def Delivers (layout : Layout) : Prop :=
  ∀ (buf : Bytes) (base : Nat) (found : Option Nat), buf.length < Size.largest →
    layout.measure buf base = .ok found →
    (∀ length, found = some length → base + length < Size.limit) →
    ShortOnlyIf buf (∀ length, found = some length → buf.length < base + length)
      (layout.decodeFrom buf base)

section

variable {buf : Bytes} (hlt : buf.length < Size.largest)
include hlt

theorem shortOnlyIf_static {layout : Layout} (coherent : layout.Coherent)
    (hdelivers : layout.Delivers) (hdynamic : layout.isDynamic = false) {base : Nat}
    (hsize : base + layout.staticSize < Size.limit) :
    ShortOnlyIf buf (buf.length < base + layout.staticSize) (layout.decodeFrom buf base) := by
  have hmeasure := measure_of_static coherent hdynamic hsize buf
  refine (hdelivers buf base _ hlt hmeasure ?_).mono fun hlack => hlack _ rfl
  rintro length ⟨⟩
  exact hsize

theorem shortOnlyIf_decodeElements {element : ElementCodec Layout} (hstrided : element.Strided)
    (hnested : ∀ inner ∈ element.nested, inner.Coherent ∧ inner.Delivers) (position count : Nat) :
    ShortOnlyIf buf (buf.length < position + count * element.size)
      (decodeElements element buf position count) := by
  cases element with
  | scalar type =>
    rw [decodeElements]
    exact shortOnlyIf_readScalars hlt type count
  | struct layout =>
    obtain ⟨coherent, hdelivers⟩ := hnested layout (by simp [ElementCodec.nested])
    rw [decodeElements, ElementCodec.size]
    refine shortOnlyIf_ensureElements hlt fun hle => ?_
    refine (shortOnlyIf_mapM fun k hk => ?_).bind fun items _ => shortOnlyIf_ok _
    have hstop : (k + 1) * layout.staticSize ≤ count * layout.staticSize :=
      Nat.mul_le_mul_right _ (List.mem_range.mp hk)
    rw [Nat.succ_mul] at hstop
    have hlimit := Nat.lt_of_lt_pred hlt
    refine (shortOnlyIf_static hlt coherent hdelivers hstrided.1 ?_).mono fun hshort => ?_
    · omega
    · omega

/-- A field that is measured is read, unless the buffer ends before the field does. -/
theorem shortOnlyIf_decodeField {codec : FieldCodec Layout} {slot : Slot} (hsized : codec.Sized)
    (hnested : ∀ inner ∈ codec.nested, inner.Coherent ∧ inner.Delivers) {position : Nat}
    {counts : List Nat} {found : Option (Nat × Nat)}
    (hmeasure : measureField codec slot buf position counts = .ok found)
    (hbound : ∀ span count, found = some (span, count) →
      position + codec.staticWidth + span < Size.limit) :
    ShortOnlyIf buf
      (∀ span count, found = some (span, count) → buf.length < position + codec.staticWidth + span)
      (decodeField codec slot.name buf position counts) := by
  have hfixed : codec.span? = none →
      (buf.length < position + codec.staticWidth →
        ∀ span count, found = some (span, count) →
          buf.length < position + codec.staticWidth + span) :=
    fun _ hshort span count _ => by omega
  cases codec with
  | scalar type =>
    rw [decodeField]
    exact ((Codec.shortOnlyIf_readScalar hlt type).mono (hfixed rfl)).bind fun s _ =>
      shortOnlyIf_ok _
  | text width =>
    cases width with
    | fixed capacity =>
      rw [decodeField]
      exact ((shortOnlyIf_readText hlt _ _).mono (hfixed rfl)).bind fun s _ => shortOnlyIf_ok _
    | counted source =>
      rw [measureField] at hmeasure
      obtain ⟨span, hspan, hpair⟩ := bind_eq_ok_iff.mp hmeasure
      cases hpair
      obtain ⟨rfl, -⟩ := Codec.scaled_eq_ok_iff.mp hspan
      rw [decodeField]
      refine ((shortOnlyIf_readText hlt _ _).mono ?_).bind fun s _ => shortOnlyIf_ok _
      rintro hshort span count ⟨⟩
      have hle : Size.addSat (counts.getD source 0) 1 ≤ counts.getD source 0 + 1 :=
        Nat.min_le_left _ _
      rw [FieldCodec.staticWidth]
      omega
  | array element length =>
    rw [decodeField]
    refine ((shortOnlyIf_decodeElements hlt hsized.1 hnested _ _).mono ?_).bind fun value _ =>
      shortOnlyIf_ok _
    rw [Nat.mul_comm]
    exact hfixed rfl
  | list element source =>
    rw [measureField] at hmeasure
    obtain ⟨span, hspan, hpair⟩ := bind_eq_ok_iff.mp hmeasure
    cases hpair
    rw [decodeField, hspan]
    obtain ⟨rfl, -⟩ := Codec.scaled_eq_ok_iff.mp hspan
    refine ((shortOnlyIf_decodeElements hlt hsized hnested _ _).mono ?_).bind fun value _ =>
      shortOnlyIf_ok _
    rintro hshort span count ⟨⟩
    exact hshort
  | struct layout =>
    obtain ⟨coherent, hdelivers⟩ := hnested layout (by simp [FieldCodec.nested])
    -- what the layout inside lacks, the field lacks, as its length is its fixed part and its span
    have hinner : ShortOnlyIf buf (∀ span count, found = some (span, count) →
        buf.length < position + layout.staticSize + span) (layout.decodeFrom buf position) := by
      rw [measureField] at hmeasure
      by_cases hdynamic : layout.isDynamic = true
      · rw [if_pos hdynamic] at hmeasure
        obtain ⟨_ | length, hlength, hpair⟩ := bind_eq_ok_iff.mp hmeasure
        · refine (hdelivers buf position none hlt hlength (by simp)).mono fun _ => ?_
          cases hpair
          simp
        · obtain ⟨span, hspan, hs⟩ := bind_eq_ok_iff.mp hpair
          cases hs
          obtain ⟨hle, rfl⟩ := Codec.spanOf_eq_ok_iff.mp hspan
          have hend := hbound _ _ rfl
          rw [FieldCodec.staticWidth] at hend
          refine (hdelivers buf position (some length) hlt hlength ?_).mono fun hlack => ?_
          · rintro _ ⟨⟩
            omega
          · rintro _ _ ⟨⟩
            have := hlack length rfl
            omega
      · rw [if_neg hdynamic] at hmeasure
        cases hmeasure
        refine (shortOnlyIf_static hlt coherent hdelivers (Bool.eq_false_iff.mpr hdynamic)
          (hbound 0 0 rfl)).mono fun hshort => ?_
        rintro _ _ ⟨⟩
        exact hshort
    rw [decodeField]
    refine hinner.bind ?_
    rintro ⟨inner, length⟩ hread
    have hspan : Codec.spanOf layout length = .ok (length - layout.staticSize) :=
      Codec.spanOf_eq_ok_iff.mpr ⟨staticSize_le_of_decodeFrom hread, rfl⟩
    dsimp only
    rw [hspan]
    exact shortOnlyIf_ok _

end

/-- Where the field after the ones read so far is measured, they end within sizes. -/
theorem lt_limit_of_measureFields {index : Nat} {offset stop : Offset}
    {fields : List (FieldLayout Layout)} (htiled : Tiled index offset fields stop) {buf : Bytes}
    {base position : Nat} {spans counts : List Nat} {found : Option (List Nat)}
    (hstands : offset.Stands base spans position)
    (hmeasure : measureFields fields buf base spans counts = .ok found)
    (hbound : ∀ all, found = some all → base + stop.total all < Size.limit) :
    position < Size.limit := by
  cases htiled with
  | nil =>
    rw [measureFields] at hmeasure
    cases hmeasure
    exact hstands.position ▸ hbound spans rfl
  | cons label _ =>
    rw [measureFields_cons] at hmeasure
    obtain ⟨place, hlocate, -⟩ := bind_eq_ok_iff.mp hmeasure
    exact (Codec.eq_of_locate_of_stands hlocate hstands).2

/-- A field that is measured and read has the span and the count that were measured. -/
theorem measured_of_decodeField {codec : FieldCodec Layout} {slot : Slot} {buf : Bytes}
    {position span : Nat} {counts : List Nat} {value : Value} {found : Option (Nat × Nat)}
    (hscalar : slot.isSizeField = true → ∃ type, codec = .scalar type)
    (hnested : ∀ inner ∈ codec.nested, inner.Measures)
    (hcounts : ∀ source, counts.getD source 0 < Size.limit)
    (hvalue : decodeField codec slot.name buf position counts = .ok (value, span))
    (hmeasure : measureField codec slot buf position counts = .ok found) :
    ∃ count, found = some (span, count) ∧
      (if slot.isSizeField then Codec.countOf slot.name value else .ok 0) = .ok count := by
  have hcount : ∃ count,
      (if slot.isSizeField then Codec.countOf slot.name value else .ok 0) = .ok count := by
    by_cases hsize : slot.isSizeField = true
    · obtain ⟨type, rfl⟩ := hscalar hsize
      simp only [decodeField, bind_eq_ok_iff, pure_eq_ok_iff, Prod.mk.injEq] at hvalue
      obtain ⟨s, hread, rfl, rfl⟩ := hvalue
      rw [measureField_scalar, if_pos hsize, if_neg (Nat.not_lt.mpr (Codec.readScalar_eq_ok hread)),
        hread] at hmeasure
      obtain ⟨s', hs, hrest⟩ := bind_eq_ok_iff.mp hmeasure
      cases hs
      obtain ⟨count, hcount, -⟩ := bind_eq_ok_iff.mp hrest
      exact ⟨count, by rw [if_pos hsize]; exact hcount⟩
    · exact ⟨0, if_neg hsize⟩
  obtain ⟨count, hcount⟩ := hcount
  rw [measureField_of_decodeField hscalar hnested hcounts hvalue hcount] at hmeasure
  exact ⟨count, (Except.ok.inj hmeasure).symm, hcount⟩

theorem shortOnlyIf_decodeFields {index : Nat} {offset stop : Offset}
    {fields : List (FieldLayout Layout)} (htiled : Tiled index offset fields stop)
    (hsized : ∀ field ∈ fields, field.codec.Sized)
    (hscalar : ∀ field ∈ fields, field.isSizeField = true → ∃ type, field.codec = .scalar type)
    (hnested : ∀ field ∈ fields, ∀ inner ∈ field.codec.nested,
      inner.Coherent ∧ inner.Measures ∧ inner.Delivers)
    {buf : Bytes} (hlt : buf.length < Size.largest) {base position : Nat}
    {spans counts : List Nat} {found : Option (List Nat)} (hindex : index = spans.length)
    (hcounts : ∀ n ∈ counts, n < Size.limit) (hstands : offset.Stands base spans position)
    (hmeasure : measureFields fields buf base spans counts = .ok found)
    (hbound : ∀ all, found = some all → base + stop.total all < Size.limit) :
    ShortOnlyIf buf (∀ all, found = some all → buf.length < base + stop.total all)
      (decodeFields fields buf base spans counts) := by
  induction htiled generalizing position spans counts with
  | nil index stop =>
    rw [decodeFields]
    exact shortOnlyIf_ok _
  | @cons index field fields stop label htiled ih =>
    have hinner := hnested field (by simp)
    rw [measureFields_cons] at hmeasure
    obtain ⟨place, hlocate, hmeasure⟩ := bind_eq_ok_iff.mp hmeasure
    obtain ⟨rfl, -⟩ := Codec.eq_of_locate_of_stands hlocate hstands
    obtain ⟨step, hfield, hrest⟩ := bind_eq_ok_iff.mp hmeasure
    have hnext : ∀ span count, step = some (span, count) →
        (field.offset.behind index field.codec label).Stands base (spans ++ [span])
          (place + field.codec.staticWidth + span) := by
      rintro span count rfl
      rw [hindex]
      exact hstands.behind (spans_of_measureField hfield) label
    rw [decodeFields_cons, hlocate]
    -- the field ends where the fields behind it begin, so what it lacks they all lack
    refine ((shortOnlyIf_decodeField hlt (hsized field (by simp))
      (fun inner hmem => ⟨(hinner inner hmem).1, (hinner inner hmem).2.2⟩) hfield ?_).mono ?_).bind
        ?_
    · rintro span count rfl
      exact lt_limit_of_measureFields htiled (hnext span count rfl) hrest hbound
    · rintro hlack all rfl
      obtain _ | ⟨span, count⟩ := step
      · cases hrest
      · obtain ⟨last, hlast, hle⟩ :=
          stands_of_measureFields htiled (by simp [hindex]) (hnext span count rfl) hrest
        have := hlack span count rfl
        have := hlast.position
        omega
    · rintro ⟨value, span⟩ hvalue
      obtain ⟨count, rfl, hcount⟩ := measured_of_decodeField (hscalar field (by simp))
        (fun inner hmem => (hinner inner hmem).2.1) (getD_lt_limit hcounts) hvalue hfield
      dsimp only
      rw [hcount]
      exact (ih (fun other hother => hsized other (by simp [hother]))
        (fun other hother => hscalar other (by simp [hother]))
        (fun other hother => hnested other (by simp [hother])) (by simp [hindex])
        (lt_limit_append hcounts hcount) (hnext span count rfl) hrest hbound).bind
          fun _ _ => shortOnlyIf_ok _

/-- Where measuring gives an answer, reading has one reason left to fail: the bytes run out. -/
theorem WellFormed.delivers {layout : Layout} (h : layout.WellFormed) : layout.Delivers := by
  induction h with
  | @intro layout coherent hwell ih =>
    intro buf base found hlt hmeasure hbound
    have hnested : ∀ field ∈ layout.fields, ∀ inner ∈ field.codec.nested,
        inner.Coherent ∧ inner.Measures ∧ inner.Delivers := fun field hfield inner hinner =>
      have hmem := mem_nested hfield hinner
      ⟨(hwell inner hmem).coherent, (hwell inner hmem).measures, ih inner hmem⟩
    rw [measure_eq] at hmeasure
    obtain ⟨spans, hfields, hstop⟩ := bind_eq_ok_iff.mp hmeasure
    -- the layout ends at its stop, and measuring locates that whenever it has all spans
    have hlength : ∀ all, spans = some all → found = some (layout.stop.total all) ∧
        Codec.locate layout.name 0 layout.stop all = .ok (layout.stop.total all) := by
      rintro all rfl
      obtain ⟨length, hlocate, hpure⟩ := bind_eq_ok_iff.mp hstop
      obtain ⟨rfl, -⟩ := Codec.locate_eq_ok_iff.mp hlocate
      rw [Nat.zero_add] at hlocate hpure
      exact ⟨(Except.ok.inj hpure).symm, hlocate⟩
    have hread := shortOnlyIf_decodeFields coherent.tiled coherent.sized
      (fun _ hfield => coherent.codec_of_mem hfield) hnested hlt rfl (by simp)
      (Offset.stands_start base layout.start) hfields
      fun all hall => hbound _ (hlength all hall).1
    obtain ⟨name, start, fields, stop, buildOrder⟩ := layout
    rw [decodeFrom]
    refine (hread.mono ?_).bind ?_
    · rintro hlack length rfl
      obtain _ | all := spans
      · cases hstop
      · cases (hlength all rfl).1
        exact hlack all rfl
    · rintro ⟨values, all⟩ hdecode
      have hmeasured := measureFields_of_decodeFields
        (fun _ hfield => coherent.codec_of_mem hfield)
        (fun field hfield inner hinner => (hnested field hfield inner hinner).2.1) (by simp) hdecode
      rw [hfields] at hmeasured
      have hlocate := (hlength all (Except.ok.inj hmeasured)).2
      dsimp only at hlocate ⊢
      rw [hlocate]
      exact shortOnlyIf_ok _

end Layout

end PacketWire
