import Mathlib.Data.List.Forall2
import PacketWire.Codec.Plan
import PacketWire.Proofs.Codec.Access
import PacketWire.Proofs.Wire.Serial

/-!
# Sizing a record

What a plan is, in terms of the record it was made for: every span is the length of a value times
the size of its elements or what a nested struct takes beyond its fixed part, and every count is
the common length of the fields that it counts. So a plan has the length of the serialisation, and
a record has a plan when its serialisation is not too long.

* `Layout.plan_eq_ok`: what a plan says about its record.
* `Layout.WellFormed.planSized`: the length of a plan is the length of the serialisation.
* `Layout.WellFormed.plans`: a record with a serialisation has a plan.
* `Layout.WellFormed.blamesInput_plan`: a record without a plan is to blame for it.
-/

namespace PacketWire

/-! ## Spans and counts of a record -/

/-- The run-time span of a field, by what the record holds under its name. -/
structure FieldCodec.Spanned (codec : FieldCodec Layout) (value : Option Value) (span : Nat) :
    Prop where
  fixed : codec.Spans span
  counted : ∀ source scale, codec.span? = some (.counted source scale) →
    ∃ v n, value = some v ∧ v.length? = some n ∧ n * scale = span
  nested : ∀ layout, codec = .struct layout → layout.isDynamic = true →
    ∃ inner plan, value = some (.record inner) ∧ layout.plan inner = .ok plan ∧
      layout.staticSize ≤ plan.length ∧ plan.length - layout.staticSize = span

/-- The counts claimed by some fields: each is the length of all of them that name it. -/
structure Record.Claims (record : Record) (done : List (FieldLayout Layout))
    (counts : List (Nat × Nat)) : Prop where
  claimed : ∀ source n, counts.lookup source = some n →
    (∃ field ∈ done, field.codec.source? = some source) ∧
      ∀ field ∈ done, field.codec.source? = some source →
        (record.get? field.name).bind Value.length? = some n
  free : ∀ source, counts.lookup source = none →
    ∀ field ∈ done, field.codec.source? ≠ some source

theorem FieldCodec.spanned_zero {codec : FieldCodec Layout} (h : codec.span? = none)
    (value : Option Value) : codec.Spanned value 0 where
  fixed := fun _ => rfl
  counted := by simp [h]
  nested := by
    rintro layout rfl hdynamic
    simp [FieldCodec.span?, hdynamic] at h

theorem Codec.length?_of_arrayLength {name : String} {value : Value} {n : Nat}
    (h : Codec.arrayLength name value = .ok n) : value.length? = some n := by
  cases value <;> simp_all [Codec.arrayLength, Value.length?]

namespace Layout

theorem claimCount_eq_ok_iff {names : List String} {source n : Nat}
    {counts counts' : List (Nat × Nat)} :
    claimCount names source n counts = .ok counts' ↔
      (counts.lookup source = none ∧ counts ++ [(source, n)] = counts') ∨
        (counts.lookup source = some n ∧ counts = counts') := by
  unfold claimCount
  cases counts.lookup source with
  | none => simp
  | some first =>
    by_cases h : first = n
    · simp [h]
    · simp [h]

variable {record : Record} {done : List (FieldLayout Layout)} {counts counts' : List (Nat × Nat)}

/-- A field that names no carrier leaves the claims as they are. -/
theorem claims_skip (h : record.Claims done counts) {field : FieldLayout Layout}
    (hsource : field.codec.source? = none) : record.Claims (done ++ [field]) counts where
  claimed := by
    intro source n hn
    obtain ⟨⟨first, hmem, hfirst⟩, hall⟩ := h.claimed source n hn
    refine ⟨⟨first, by simp [hmem], hfirst⟩, fun other hother hnames => ?_⟩
    rcases List.mem_append.mp hother with hother | hother
    · exact hall other hother hnames
    · rw [List.mem_singleton.mp hother, hsource] at hnames
      cases hnames
  free := by
    intro source hnone other hother
    rcases List.mem_append.mp hother with hother | hother
    · exact h.free source hnone other hother
    · rw [List.mem_singleton.mp hother, hsource]
      simp

/-- A field enters the length of its value with the carrier it names. -/
theorem claims_claim (h : record.Claims done counts) {field : FieldLayout Layout} {source n : Nat}
    (hsource : field.codec.source? = some source)
    (hlength : (record.get? field.name).bind Value.length? = some n) {names : List String}
    (hclaim : claimCount names source n counts = .ok counts') :
    record.Claims (done ++ [field]) counts' := by
  have hcases := claimCount_eq_ok_iff.mp hclaim
  have hlookup : counts'.lookup source = some n ∧
      ∀ other, other ≠ source → counts'.lookup other = counts.lookup other := by
    rcases hcases with ⟨hnone, rfl⟩ | ⟨hsome, rfl⟩
    · refine ⟨by simp [List.lookup_append, hnone], fun other hne => ?_⟩
      have hbeq : (other == source) = false := by simpa using hne
      simp [List.lookup_append, List.lookup_cons, hbeq]
    · exact ⟨hsome, fun _ _ => rfl⟩
  have hold : ∀ other ∈ done, other.codec.source? = some source →
      (record.get? other.name).bind Value.length? = some n := by
    rcases hcases with ⟨hnone, -⟩ | ⟨hsome, -⟩
    · exact fun other hother hnames => absurd hnames (h.free source hnone other hother)
    · exact (h.claimed source n hsome).2
  constructor
  · intro other m hm
    by_cases heq : other = source
    · subst heq
      rw [hlookup.1, Option.some.injEq] at hm
      subst hm
      refine ⟨⟨field, by simp, hsource⟩, fun next hnext hnames => ?_⟩
      rcases List.mem_append.mp hnext with hnext | hnext
      · exact hold next hnext hnames
      · rw [List.mem_singleton.mp hnext]
        exact hlength
    · rw [hlookup.2 other heq] at hm
      obtain ⟨⟨first, hmem, hfirst⟩, hall⟩ := h.claimed other m hm
      refine ⟨⟨first, by simp [hmem], hfirst⟩, fun next hnext hnames => ?_⟩
      rcases List.mem_append.mp hnext with hnext | hnext
      · exact hall next hnext hnames
      · rw [List.mem_singleton.mp hnext, hsource, Option.some.injEq] at hnames
        exact absurd hnames.symm heq
  · intro other hnone next hnext hnames
    have hne : other ≠ source := by
      rintro rfl
      rw [hlookup.1] at hnone
      cases hnone
    rw [hlookup.2 other hne] at hnone
    rcases List.mem_append.mp hnext with hnext | hnext
    · exact h.free other hnone next hnext hnames
    · rw [List.mem_singleton.mp hnext, hsource, Option.some.injEq] at hnames
      exact hne hnames.symm

/-! ## What a plan says -/

theorem plan_eq_ok_iff {layout : Layout} {p : Plan} :
    layout.plan record = .ok p ↔
      planFields layout.fields (layout.fields.map (·.name)) record [] [] = .ok (p.spans, p.counts) ∧
        Codec.locate layout.name 0 layout.stop p.spans = .ok p.length := by
  obtain ⟨name, start, fields, stop, buildOrder⟩ := layout
  obtain ⟨spans, counts, length⟩ := p
  rw [plan]
  simp only [bind_eq_ok_iff, pure_eq_ok_iff, Prod.exists, Plan.mk.injEq]
  constructor
  · rintro ⟨_, _, hfields, _, hlength, rfl, rfl, rfl⟩
    exact ⟨hfields, hlength⟩
  · rintro ⟨hfields, hlength⟩
    exact ⟨spans, counts, hfields, length, hlength, rfl, rfl, rfl⟩

theorem planFields_cons_eq_ok_iff {field : FieldLayout Layout} {fields : List (FieldLayout Layout)}
    {names : List String} {spans all : List Nat} :
    planFields (field :: fields) names record spans counts = .ok (all, counts') ↔
      ∃ span next, planField field.codec field.toSlot names record counts = .ok (span, next) ∧
        planFields fields names record (spans ++ [span]) next = .ok (all, counts') := by
  obtain ⟨slot, codec⟩ := field
  rw [planFields]
  simp only [bind_eq_ok_iff, Prod.exists]

theorem planField_eq_ok {field : FieldLayout Layout} {names : List String} {span : Nat}
    (hclaims : record.Claims done counts)
    (h : planField field.codec field.toSlot names record counts = .ok (span, counts')) :
    field.codec.Spanned (record.get? field.name) span ∧
      record.Claims (done ++ [field]) counts' := by
  obtain ⟨slot, codec⟩ := field
  cases codec with
  | scalar type =>
    rw [planField] at h
    cases h
    exact ⟨FieldCodec.spanned_zero rfl _, claims_skip hclaims rfl⟩
  | text width =>
    cases width with
    | fixed capacity =>
      rw [planField] at h
      cases h
      exact ⟨FieldCodec.spanned_zero rfl _, claims_skip hclaims rfl⟩
    | counted source =>
      simp only [planField, bind_eq_ok_iff, pure_eq_ok_iff, Prod.mk.injEq] at h
      obtain ⟨value, hvalue, n, hlength, next, hclaim, scaled, hscaled, rfl, rfl⟩ := h
      have hget := Record.require_eq_ok_iff.mp hvalue
      obtain ⟨s, rfl, rfl⟩ := Codec.textLength_eq_ok_iff.mp hlength
      refine ⟨⟨fun hspan => by simp [FieldCodec.span?] at hspan, ?_, by simp⟩, ?_⟩
      · rintro source' scale hspan
        cases hspan
        exact ⟨_, _, hget, rfl, (Codec.scaled_eq_ok_iff.mp hscaled).1⟩
      · exact claims_claim hclaims rfl (by rw [hget]; rfl) hclaim
  | array element length =>
    rw [planField] at h
    cases h
    exact ⟨FieldCodec.spanned_zero rfl _, claims_skip hclaims rfl⟩
  | list element source =>
    simp only [planField, bind_eq_ok_iff, pure_eq_ok_iff, Prod.mk.injEq] at h
    obtain ⟨value, hvalue, n, hlength, next, hclaim, scaled, hscaled, rfl, rfl⟩ := h
    have hget := Record.require_eq_ok_iff.mp hvalue
    have hlength := Codec.length?_of_arrayLength hlength
    refine ⟨⟨fun hspan => by simp [FieldCodec.span?] at hspan, ?_, by simp⟩, ?_⟩
    · rintro source' scale hspan
      cases hspan
      exact ⟨_, _, hget, hlength, (Codec.scaled_eq_ok_iff.mp hscaled).1⟩
    · exact claims_claim hclaims rfl (by rw [hget]; exact hlength) hclaim
  | struct layout =>
    rw [planField] at h
    have hsource := FieldCodec.source?_struct layout
    split at h
    · next hdynamic =>
      simp only [bind_eq_ok_iff, pure_eq_ok_iff, Prod.mk.injEq] at h
      obtain ⟨value, hvalue, inner, hinner, p, hp, span', hspan, rfl, rfl⟩ := h
      have hget := Record.require_eq_ok_iff.mp hvalue
      cases Value.asRecord_eq_ok_iff.mp hinner
      obtain ⟨hle, heq⟩ := Codec.spanOf_eq_ok_iff.mp hspan
      refine ⟨⟨fun hspan => by simp [FieldCodec.span?, hdynamic] at hspan, ?_, ?_⟩,
        claims_skip hclaims hsource⟩
      · simp [FieldCodec.span?, hdynamic]
      · rintro _ hcodec -
        cases hcodec
        exact ⟨inner, p, hget, hp, hle, heq⟩
    · next hdynamic =>
      cases h
      exact ⟨FieldCodec.spanned_zero (by simp [FieldCodec.span?, hdynamic]) _,
        claims_skip hclaims hsource⟩

theorem planFields_eq_ok {fields : List (FieldLayout Layout)} {names : List String}
    {spans all : List Nat} (hclaims : record.Claims done counts)
    (h : planFields fields names record spans counts = .ok (all, counts')) :
    record.Claims (done ++ fields) counts' ∧ ∃ new, all = spans ++ new ∧
      List.Forall₂ (fun field span => field.codec.Spanned (record.get? field.name) span)
        fields new := by
  induction fields generalizing done counts spans with
  | nil =>
    rw [planFields] at h
    cases h
    exact ⟨by simpa using hclaims, [], by simp, .nil⟩
  | cons field fields ih =>
    obtain ⟨span, next, hfield, hrest⟩ := planFields_cons_eq_ok_iff.mp h
    obtain ⟨hspanned, hnext⟩ := planField_eq_ok hclaims hfield
    obtain ⟨hlast, new, rfl, hnew⟩ := ih hnext hrest
    exact ⟨by simpa using hlast, span :: new, by simp, .cons hspanned hnew⟩

/-- What a plan says about its record: the spans are those of the record, the counts are what its
fields claim, and the length is that of the spans. -/
theorem plan_eq_ok {layout : Layout} {p : Plan} (h : layout.plan record = .ok p) :
    List.Forall₂ (fun field span => field.codec.Spanned (record.get? field.name) span)
        layout.fields p.spans ∧
      record.Claims layout.fields p.counts ∧ layout.stop.total p.spans = p.length ∧
      p.length < Size.limit := by
  obtain ⟨hfields, hlength⟩ := plan_eq_ok_iff.mp h
  have hnone : record.Claims [] [] := ⟨by simp, by simp⟩
  obtain ⟨hclaims, new, hspans, hnew⟩ := planFields_eq_ok hnone hfields
  rw [List.nil_append] at hspans hclaims
  obtain ⟨htotal, hlt⟩ := Codec.locate_eq_ok_iff.mp hlength
  exact ⟨hspans ▸ hnew, hclaims, by omega, hlt⟩

/-- A size field has the count of its dependents, and a field that counts nothing has none. -/
theorem lookup_counts {layout : Layout} (coherent : layout.Coherent)
    (hclaims : record.Claims layout.fields counts) {i : Nat} {field : FieldLayout Layout}
    (hfield : layout.fields[i]? = some field) :
    counts.lookup i =
        (if field.isSizeField then
          record.commonLength? (layout.fields.map (·.name)) field.dependents else none) ∧
      (field.isSizeField = true → counts.lookup i ≠ none) := by
  cases hlookup : counts.lookup i with
  | none =>
    have hsize : ¬field.isSizeField = true := by
      intro hsize
      obtain ⟨j, other, hother, hsource⟩ := (coherent.isSizeField_iff hfield).mp hsize
      exact hclaims.free i hlookup other (List.mem_of_getElem? hother) hsource
    exact ⟨by rw [if_neg hsize], fun h => absurd h hsize⟩
  | some n =>
    obtain ⟨⟨first, hmem, hfirst⟩, hall⟩ := hclaims.claimed i n hlookup
    obtain ⟨k, hk⟩ := List.getElem?_of_mem hmem
    have hsize : field.isSizeField = true :=
      (coherent.isSizeField_iff hfield).mpr ⟨k, first, hk, hfirst⟩
    rw [if_pos hsize]
    refine ⟨(Record.commonLength?_eq_some_iff.mpr ⟨?_, fun j hj => ?_⟩).symm, by simp⟩
    · simpa [Slot.isSizeField] using hsize
    · obtain ⟨other, hother, hsource⟩ := (coherent.mem_dependents_iff hfield j).mp hj
      have := hall other (List.mem_of_getElem? hother) hsource
      simpa [Record.lengthAt?, hother] using this

/-! ## Why a record has no plan -/

theorem staticSize_le_of_plan {layout : Layout} {p : Plan} (h : layout.plan record = .ok p) :
    layout.staticSize ≤ p.length := by
  rw [← (plan_eq_ok h).2.2.1]
  exact layout.stop.constant_le_total p.spans

theorem blamesInput_claimCount (names : List String) (source n : Nat) (counts : List (Nat × Nat)) :
    BlamesInput (claimCount names source n counts) := by
  unfold claimCount
  split
  · exact blamesInput_ok _
  · split
    · exact blamesInput_ok _
    · exact blamesInput_error (by simp)

theorem blamesInput_planField {codec : FieldCodec Layout}
    (hnested : ∀ inner ∈ codec.nested, ∀ record, BlamesInput (inner.plan record)) (slot : Slot)
    (names : List String) (record : Record) (counts : List (Nat × Nat)) :
    BlamesInput (planField codec slot names record counts) := by
  cases codec with
  | scalar type => exact blamesInput_ok _
  | text width =>
    cases width with
    | fixed capacity => exact blamesInput_ok _
    | counted source =>
      rw [planField]
      refine (record.blamesInput_require _).bind fun value _ => ?_
      refine (Codec.blamesInput_textLength _ value).bind fun n _ => ?_
      refine (blamesInput_claimCount _ _ _ _).bind fun counts _ => ?_
      exact (Codec.blamesInput_scaled _ _ _).bind fun span _ => blamesInput_ok _
  | array element length => exact blamesInput_ok _
  | list element source =>
    rw [planField]
    refine (record.blamesInput_require _).bind fun value _ => ?_
    refine (Codec.blamesInput_arrayLength _ value).bind fun n _ => ?_
    refine (blamesInput_claimCount _ _ _ _).bind fun counts _ => ?_
    exact (Codec.blamesInput_scaled _ _ _).bind fun span _ => blamesInput_ok _
  | struct layout =>
    rw [planField]
    split
    · refine (record.blamesInput_require _).bind fun value _ => ?_
      refine (value.blamesInput_asRecord _).bind fun inner _ => ?_
      refine (hnested layout (by simp [FieldCodec.nested]) inner).bind fun p hp => ?_
      exact (Codec.blamesInput_spanOf (staticSize_le_of_plan hp)).bind fun span _ =>
        blamesInput_ok _
    · exact blamesInput_ok _

theorem blamesInput_planFields {fields : List (FieldLayout Layout)}
    (hnested : ∀ field ∈ fields, ∀ inner ∈ field.codec.nested, ∀ record,
      BlamesInput (inner.plan record)) (names : List String) (record : Record) (spans : List Nat)
    (counts : List (Nat × Nat)) : BlamesInput (planFields fields names record spans counts) := by
  induction fields generalizing spans counts with
  | nil => exact blamesInput_ok _
  | cons field fields ih =>
    rw [planFields]
    refine (blamesInput_planField (hnested field (by simp)) _ _ _ _).bind fun pair _ => ?_
    exact ih (fun other hother => hnested other (by simp [hother])) _ _

/-- A record without a plan is to blame for it, or is too long. -/
theorem WellFormed.blamesInput_plan {layout : Layout} (h : layout.WellFormed) (record : Record) :
    BlamesInput (layout.plan record) := by
  induction h generalizing record with
  | @intro layout _ _ ih =>
    obtain ⟨name, start, fields, stop, buildOrder⟩ := layout
    rw [plan]
    refine (blamesInput_planFields (fun field hfield inner hinner => ih inner
      (mem_nested hfield hinner)) _ record [] []).bind fun pair _ => ?_
    exact (Codec.blamesInput_locate _ _ _ _).bind fun length _ => blamesInput_ok _

/-! ## Plans and serialisations -/

/-- The length of a plan is the length of the serialisation. -/
def PlanSized (layout : Layout) : Prop :=
  ∀ record body p, layout.serial? record = some body → layout.plan record = .ok p →
    p.length = layout.start + body.length

/-- A value takes the fixed width of its field and the span that the plan has for it. -/
theorem length_serial_of_spanned {codec : FieldCodec Layout} (hsized : codec.Sized)
    (hnested : ∀ inner ∈ codec.nested, inner.start = 0 ∧ inner.SerialSized ∧ inner.PlanSized)
    {value : Value} {span : Nat} (hspanned : codec.Spanned (some value) span) {bytes : Bytes}
    (hbytes : codec.serial? value = some bytes) : bytes.length = codec.staticWidth + span := by
  have hlength := codec.length_serial? hsized
    (fun inner hinner => ⟨(hnested inner hinner).1, (hnested inner hinner).2.1⟩) hbytes
  by_cases hspan : codec.span? = none
  · rw [hlength.2 hspan, hspanned.fixed hspan, Nat.add_zero]
  cases codec with
  | scalar type => exact absurd rfl hspan
  | text width =>
    cases width with
    | fixed capacity => exact absurd rfl hspan
    | counted source =>
      obtain ⟨v, n, hv, hn, rfl⟩ := hspanned.counted source 1 rfl
      cases hv
      cases value with
      | text s =>
        rw [FieldCodec.serial?] at hbytes
        obtain ⟨ascii, hascii, hwidth⟩ := TextWidth.length_bytes? hbytes
        rw [Value.length?, ← Value.length_asciiBytes? hascii, Option.some.injEq] at hn
        dsimp only at hwidth
        rw [FieldCodec.staticWidth, hwidth, hn]
        omega
      | _ => simp [FieldCodec.serial?] at hbytes
  | array element length => exact absurd rfl hspan
  | list element source =>
    obtain ⟨v, n, hv, hn, rfl⟩ := hspanned.counted source element.size rfl
    cases hv
    rw [FieldCodec.serial?] at hbytes
    obtain ⟨count, hcount, hsize⟩ := element.length_serial? hsized
      (fun inner hinner => ⟨(hnested inner hinner).1, (hnested inner hinner).2.1⟩) hbytes
    rw [hn, Option.some.injEq] at hcount
    rw [FieldCodec.staticWidth, hsize, hcount, Nat.zero_add]
  | struct layout =>
    have hdynamic : layout.isDynamic = true := by
      simpa [FieldCodec.span?] using hspan
    obtain ⟨inner, p, hv, hp, hle, rfl⟩ := hspanned.nested layout rfl hdynamic
    cases hv
    rw [FieldCodec.serial?] at hbytes
    obtain ⟨hstart, -, hplan⟩ := hnested layout (by simp [FieldCodec.nested])
    have := hplan inner bytes p hbytes hp
    rw [FieldCodec.staticWidth]
    omega

theorem length_bytes_of_spanned {field : FieldLayout Layout} {names : List String} {span : Nat}
    (hsized : field.codec.Sized)
    (hnested : ∀ inner ∈ field.codec.nested, inner.start = 0 ∧ inner.SerialSized ∧ inner.PlanSized)
    (hspanned : field.codec.Spanned (record.get? field.name) span) {bytes : Bytes}
    (hbytes : field.bytes? names record = some bytes) :
    bytes.length = field.codec.staticWidth + span := by
  rw [FieldLayout.bytes?] at hbytes
  split at hbytes
  · obtain ⟨count, -, hcount⟩ := Option.bind_eq_some_iff.mp hbytes
    obtain ⟨hspan, hlength⟩ := FieldCodec.length_countBytes? hcount
    rw [hlength, hspanned.fixed hspan, Nat.add_zero]
  · obtain ⟨value, hvalue, hserial⟩ := Option.bind_eq_some_iff.mp hbytes
    exact length_serial_of_spanned hsized hnested (hvalue ▸ hspanned) hserial

/-- Fields of the spans of a plan lead from a position over their serialisation. -/
theorem stands_of_spanned {index : Nat} {offset stop : Offset} {fields : List (FieldLayout Layout)}
    (htiled : Tiled index offset fields stop) (hsized : ∀ field ∈ fields, field.codec.Sized)
    (hnested : ∀ field ∈ fields, ∀ inner ∈ field.codec.nested,
      inner.start = 0 ∧ inner.SerialSized ∧ inner.PlanSized)
    {base position : Nat} {spans new : List Nat} (hindex : index = spans.length)
    (hstands : offset.Stands base spans position)
    (hspanned : List.Forall₂
      (fun field span => field.codec.Spanned (record.get? field.name) span) fields new)
    {names : List String} {body : Bytes} (h : serialFields? fields names record = some body) :
    stop.Stands base (spans ++ new) (position + body.length) := by
  induction htiled generalizing position spans new body with
  | nil index stop =>
    cases hspanned
    cases h
    simpa using hstands
  | @cons index field fields stop label _ ih =>
    obtain ⟨span, later, hfield, hlater, rfl⟩ := List.forall₂_cons_left_iff.mp hspanned
    simp only [serialFields?_cons, Option.bind_eq_some_iff, Option.map_eq_some_iff] at h
    obtain ⟨bytes, hbytes, tail, htail, rfl⟩ := h
    have hlength := length_bytes_of_spanned (hsized field (by simp)) (hnested field (by simp))
      hfield hbytes
    have hnext := hstands.behind hfield.fixed label
    rw [← hindex] at hnext
    have hlast := ih (fun other hother => hsized other (by simp [hother]))
      (fun other hother => hnested other (by simp [hother])) (by simp [hindex]) hnext hlater htail
    rw [List.append_assoc] at hlast
    rw [List.length_append, hlength]
    simpa [Nat.add_assoc] using hlast

/-- The length of a plan is the length of the serialisation. -/
theorem WellFormed.planSized {layout : Layout} (h : layout.WellFormed) : layout.PlanSized := by
  induction h with
  | @intro layout coherent hwell ih =>
    intro record body p hbody hplan
    rw [serial?_eq] at hbody
    obtain ⟨hspanned, -, htotal, -⟩ := plan_eq_ok hplan
    have hstands := stands_of_spanned coherent.tiled coherent.sized
      (fun field hfield inner hinner =>
        have hmem := mem_nested hfield hinner
        ⟨coherent.starts inner hmem, (hwell inner hmem).length_serial, ih inner hmem⟩)
      rfl (Offset.stands_start 0 layout.start) hspanned hbody
    have := hstands.position
    rw [List.nil_append, htotal] at this
    omega

/-! ## Records that can be sized -/

/-- A record whose serialisation is not too long has a plan. -/
def Plans (layout : Layout) : Prop :=
  ∀ record body, layout.serial? record = some body → layout.start + body.length < Size.limit →
    ∃ p, layout.plan record = .ok p

theorem arrayLength_of_serial {element : ElementCodec Layout} {value : Value} {bytes : Bytes}
    (h : element.serial? value = some bytes) {n : Nat} (hn : value.length? = some n)
    (name : String) : Codec.arrayLength name value = .ok n := by
  cases value with
  | bytes b => exact congrArg Except.ok (Option.some.inj hn)
  | array items => exact congrArg Except.ok (Option.some.inj hn)
  | text s =>
    cases element with
    | scalar type => cases type <;> simp [ElementCodec.serial?] at h
    | struct layout => simp [ElementCodec.serial?] at h
  | _ => cases hn

section

variable {layout : Layout} (coherent : layout.Coherent)
  {field : FieldLayout Layout} {rest : List (FieldLayout Layout)}
  (hfields : layout.fields = done ++ field :: rest)
  (hclaims : record.Claims done counts)
  (hcarried : ∀ (i : Nat) (source : FieldLayout Layout), layout.fields[i]? = some source →
    source.isSizeField = true →
    ∃ n, record.commonLength? (layout.fields.map (·.name)) source.dependents = some n)
include coherent hfields hclaims hcarried

/-- Where all dependents of a size field agree, none of them finds another count claimed. -/
theorem claimCount_of_common {source n : Nat} (hsource : field.codec.source? = some source)
    (hlength : (record.get? field.name).bind Value.length? = some n) (names : List String) :
    ∃ next, claimCount names source n counts = .ok next := by
  have hfield : layout.fields[done.length]? = some field := by simp [hfields]
  obtain ⟨-, carrier, hcarrier, hsize, hmem⟩ := coherent.source_isSizeField hfield hsource
  obtain ⟨m, hm⟩ := hcarried source carrier hcarrier hsize
  obtain ⟨-, hall⟩ := Record.commonLength?_eq_some_iff.mp hm
  have hn : n = m := by
    have := hall _ hmem
    simp only [Record.lengthAt?, List.getElem?_map, hfield, Option.map_some, Option.bind_some,
      hlength, Option.some.injEq] at this
    exact this
  cases hlookup : counts.lookup source with
  | none => exact ⟨_, claimCount_eq_ok_iff.mpr (.inl ⟨hlookup, rfl⟩)⟩
  | some first =>
    obtain ⟨⟨other, hother, hnames⟩, hagreed⟩ := hclaims.claimed source first hlookup
    obtain ⟨k, hk⟩ := List.getElem?_of_mem (show other ∈ layout.fields by simp [hfields, hother])
    have hkmem := (coherent.mem_dependents_iff hcarrier k).mpr ⟨other, hk, hnames⟩
    have hfirst : first = m := by
      have := hall k hkmem
      simp only [Record.lengthAt?, List.getElem?_map, hk, Option.map_some, Option.bind_some,
        hagreed other hother hnames, Option.some.injEq] at this
      exact this
    exact ⟨counts, claimCount_eq_ok_iff.mpr (.inr ⟨by rw [hlookup, hfirst, hn], rfl⟩)⟩

theorem planField_of_bytes
    (hnested : ∀ inner ∈ field.codec.nested,
      inner.start = 0 ∧ inner.SerialSized ∧ inner.PlanSized ∧ inner.Plans)
    {bytes : Bytes} (hbytes : field.bytes? (layout.fields.map (·.name)) record = some bytes)
    (hlt : bytes.length < Size.limit) (names : List String) :
    ∃ span next, planField field.codec field.toSlot names record counts = .ok (span, next) := by
  have hsized := coherent.sized field (by simp [hfields])
  have hclaim : ∀ source n, field.codec.source? = some source →
      (record.get? field.name).bind Value.length? = some n →
      ∃ next, claimCount names source n counts = .ok next := fun source n hsource hlength =>
    claimCount_of_common coherent hfields hclaims hcarried hsource hlength names
  have hplain : (∀ type, field.codec ≠ .scalar type) →
      ∃ value, record.get? field.name = some value ∧ field.codec.serial? value = some bytes := by
    intro hne
    have hsize : ¬field.isSizeField = true := fun hsize =>
      (coherent.codec_of_mem (by simp [hfields]) hsize).elim hne
    rw [FieldLayout.bytes?, if_neg hsize] at hbytes
    exact Option.bind_eq_some_iff.mp hbytes
  obtain ⟨slot, codec⟩ := field
  dsimp only at hsized hclaim hplain hnested ⊢
  cases codec with
  | scalar type => exact ⟨0, counts, by rw [planField]⟩
  | text width =>
    cases width with
    | fixed capacity => exact ⟨0, counts, by rw [planField]⟩
    | counted source =>
      obtain ⟨value, hvalue, hserial⟩ := hplain (by simp)
      cases value with
      | text s =>
        rw [FieldCodec.serial?] at hserial
        obtain ⟨ascii, hascii, hwidth⟩ := TextWidth.length_bytes? hserial
        dsimp only at hwidth
        have hlength := Value.length_asciiBytes? hascii
        obtain ⟨next, hnext⟩ := hclaim source (Utf8.length s) rfl (by rw [hvalue]; rfl)
        refine ⟨Utf8.length s, next, ?_⟩
        have hscaled : Codec.scaled slot.name (Utf8.length s) 1 = .ok (Utf8.length s) :=
          Codec.scaled_eq_ok_iff.mpr ⟨Nat.mul_one _, by omega⟩
        rw [planField, Record.require_eq_ok_iff.mpr hvalue]
        simp only [bind, Except.bind, Codec.textLength, hnext, hscaled]
        rfl
      | _ => simp [FieldCodec.serial?] at hserial
  | array element length => exact ⟨0, counts, by rw [planField]⟩
  | list element source =>
    obtain ⟨value, hvalue, hserial⟩ := hplain (by simp)
    rw [FieldCodec.serial?] at hserial
    obtain ⟨n, hn, hsize⟩ := element.length_serial? hsized
      (fun inner hinner => ⟨(hnested inner hinner).1, (hnested inner hinner).2.1⟩) hserial
    obtain ⟨next, hnext⟩ := hclaim source n rfl (by rw [hvalue]; exact hn)
    refine ⟨n * element.size, next, ?_⟩
    have hscaled : Codec.scaled slot.name n element.size = .ok (n * element.size) :=
      Codec.scaled_eq_ok_iff.mpr ⟨rfl, by omega⟩
    rw [planField, Record.require_eq_ok_iff.mpr hvalue]
    simp only [bind, Except.bind, arrayLength_of_serial hserial hn, hnext, hscaled]
    rfl
  | struct layout =>
    rw [planField]
    by_cases hdynamic : layout.isDynamic = true
    · rw [if_pos hdynamic]
      obtain ⟨value, hvalue, hserial⟩ := hplain (by simp)
      obtain ⟨hstart, hserialSized, hplanSized, hplans⟩ := hnested layout (by simp [FieldCodec.nested])
      cases value with
      | record inner =>
        rw [FieldCodec.serial?] at hserial
        obtain ⟨p, hp⟩ := hplans inner bytes hserial (by omega)
        have hlength := hplanSized inner bytes p hserial hp
        have hle := (hserialSized inner bytes hserial).1
        have hspan : Codec.spanOf layout p.length = .ok (p.length - layout.staticSize) :=
          Codec.spanOf_eq_ok_iff.mpr ⟨by omega, rfl⟩
        refine ⟨p.length - layout.staticSize, counts, ?_⟩
        rw [Record.require_eq_ok_iff.mpr hvalue]
        simp only [bind, Except.bind, Value.asRecord, hp, hspan]
        rfl
      | _ => simp [FieldCodec.serial?] at hserial
    · rw [if_neg hdynamic]
      exact ⟨0, counts, rfl⟩

end

theorem planFields_of_serialFields? {layout : Layout} (coherent : layout.Coherent)
    (hnested : ∀ inner ∈ layout.nested,
      inner.start = 0 ∧ inner.SerialSized ∧ inner.PlanSized ∧ inner.Plans)
    (hcarried : ∀ (i : Nat) (source : FieldLayout Layout), layout.fields[i]? = some source →
      source.isSizeField = true →
      ∃ n, record.commonLength? (layout.fields.map (·.name)) source.dependents = some n)
    {fields : List (FieldLayout Layout)} (hfields : layout.fields = done ++ fields)
    (hclaims : record.Claims done counts) {body : Bytes}
    (h : serialFields? fields (layout.fields.map (·.name)) record = some body)
    (hlt : body.length < Size.limit) (names : List String) (spans : List Nat) :
    ∃ all counts', planFields fields names record spans counts = .ok (all, counts') := by
  induction fields generalizing done counts spans body with
  | nil => exact ⟨spans, counts, by rw [planFields]⟩
  | cons field fields ih =>
    simp only [serialFields?_cons, Option.bind_eq_some_iff, Option.map_eq_some_iff] at h
    obtain ⟨bytes, hbytes, tail, htail, rfl⟩ := h
    rw [List.length_append] at hlt
    obtain ⟨span, next, hfield⟩ := planField_of_bytes coherent hfields hclaims hcarried
      (fun inner hinner => hnested inner (mem_nested (by simp [hfields]) hinner)) hbytes
      (by omega) names
    obtain ⟨-, hnext⟩ := planField_eq_ok hclaims hfield
    have hsplit : layout.fields = (done ++ [field]) ++ fields := by simp [hfields]
    obtain ⟨all, counts', hrest⟩ := ih hsplit hnext htail (by omega) (spans ++ [span])
    exact ⟨all, counts', planFields_cons_eq_ok_iff.mpr ⟨span, next, hfield, hrest⟩⟩

/-- A record with a serialisation has a plan, where the bytes in front of it and the serialisation
together are not too long. -/
theorem WellFormed.plans {layout : Layout} (h : layout.WellFormed) : layout.Plans := by
  induction h with
  | @intro layout coherent hwell ih =>
    intro record body hbody hlt
    have hnested : ∀ inner ∈ layout.nested,
        inner.start = 0 ∧ inner.SerialSized ∧ inner.PlanSized ∧ inner.Plans := fun inner hinner =>
      ⟨coherent.starts inner hinner, (hwell inner hinner).length_serial,
        (hwell inner hinner).planSized, ih inner hinner⟩
    rw [serial?_eq] at hbody
    have hcarried : ∀ (i : Nat) (source : FieldLayout Layout), layout.fields[i]? = some source →
        source.isSizeField = true →
        ∃ n, record.commonLength? (layout.fields.map (·.name)) source.dependents = some n := by
      intro i source hi hsize
      obtain ⟨bytes, hbytes, -⟩ := bytes?_of_serialFields? hbody (List.mem_of_getElem? hi)
      rw [FieldLayout.bytes?, if_pos hsize] at hbytes
      obtain ⟨n, hn, -⟩ := Option.bind_eq_some_iff.mp hbytes
      exact ⟨n, hn⟩
    have hnone : record.Claims [] [] := ⟨by simp, by simp⟩
    obtain ⟨all, counts, hplan⟩ := planFields_of_serialFields? coherent hnested hcarried
      (List.nil_append _).symm hnone hbody (by omega) (layout.fields.map (·.name)) []
    obtain ⟨-, new, hnew, hspanned⟩ := planFields_eq_ok hnone hplan
    rw [List.nil_append] at hnew
    subst hnew
    have hstands := stands_of_spanned coherent.tiled coherent.sized
      (fun field hfield inner hinner =>
        have hmem := mem_nested hfield hinner
        ⟨(hnested inner hmem).1, (hnested inner hmem).2.1, (hnested inner hmem).2.2.1⟩)
      rfl (Offset.stands_start 0 layout.start) hspanned hbody
    rw [List.nil_append] at hstands
    refine ⟨⟨all, counts, layout.start + body.length⟩, plan_eq_ok_iff.mpr ⟨hplan, ?_⟩⟩
    exact Codec.locate_of_stands (by simpa using hstands) hlt

end Layout

end PacketWire
