import PacketWire.Codec.Plan
import PacketWire.Proofs.Codec.Access
import PacketWire.Proofs.Wire.Alike

/-!
# Alike records have one plan

Whatever sizing a record looks at, it looks at through the fields that count nothing. So of two
records that a layout cannot tell apart, either both have no plan, for the same reason, or both have
the same one.

* `Record.require_cases`, `FieldCodec.Alike.struct_cases`: what alike records hold under a name, and
  what alike values of a struct can be.
* `Layout.WellFormed.plan_alike`: alike records have one plan.
-/

namespace PacketWire

/-! ## Values of a kind that is not wanted -/

theorem Value.mismatch_eq {v w : Value} (h : v.kindName = w.kindName) (field expected : String) :
    v.mismatch field expected = w.mismatch field expected :=
  congrArg (CodecError.typeMismatch field expected) h

namespace Codec

theorem textLength_of_refused {width : TextWidth} {v : Value}
    (h : ¬(FieldCodec.text width).Takes v) (name : String) :
    textLength name v = .error (v.mismatch name "string") := by
  cases v with
  | text s => exact absurd trivial h
  | _ => rfl

theorem arrayLength_of_refused {element : ElementCodec Layout} {source : Nat} {v : Value}
    (h : ¬(FieldCodec.list element source).Takes v) (name : String) :
    arrayLength name v = .error (v.mismatch name "array") := by
  cases v with
  | bytes b => exact absurd trivial h
  | array items => exact absurd trivial h
  | _ => rfl

end Codec

theorem Value.asRecord_of_refused {layout : Layout} {v : Value}
    (h : ¬(FieldCodec.struct layout).Takes v) (name : String) :
    v.asRecord name = .error (v.mismatch name "record") := by
  cases v with
  | record fields => exact absurd trivial h
  | _ => rfl

/-! ## Alike values -/

theorem Codec.textLength_alike {width : TextWidth} {v w : Value}
    (h : (FieldCodec.text width).Alike v w) (name : String) :
    textLength name v = textLength name w := by
  cases h with
  | same => rfl
  | refused left right kind =>
    rw [textLength_of_refused left, textLength_of_refused right, Value.mismatch_eq kind]

theorem ElementCodec.Alike.arrayLength {element : ElementCodec Layout} {v w : Value}
    (h : element.Alike v w) (name : String) :
    Codec.arrayLength name v = Codec.arrayLength name w := by
  cases h with
  | items length each => exact congrArg Except.ok length
  | toBytes b => exact congrArg Except.ok (List.length_map Value.u8)
  | ofBytes b => exact congrArg Except.ok (List.length_map Value.u8).symm

theorem FieldCodec.takes_array {element : ElementCodec Layout} (length source : Nat) (v : Value) :
    (FieldCodec.array element length).Takes v ↔ (FieldCodec.list element source).Takes v := by
  cases v <;> exact Iff.rfl

/-- An array of a fixed number of elements is compared as one of a counted number is. -/
theorem FieldCodec.Alike.list_of_array {element : ElementCodec Layout} {length : Nat} {v w : Value}
    (h : (FieldCodec.array element length).Alike v w) (source : Nat) :
    (FieldCodec.list element source).Alike v w := by
  cases h with
  | same => exact .same v
  | refused left right kind =>
    rw [takes_array length source] at left right
    exact .refused left right kind
  | array elements => exact .list elements

theorem Codec.arrayLength_alike {element : ElementCodec Layout} {source : Nat} {v w : Value}
    (h : (FieldCodec.list element source).Alike v w) (name : String) :
    arrayLength name v = arrayLength name w := by
  cases h with
  | same => rfl
  | refused left right kind =>
    rw [arrayLength_of_refused left, arrayLength_of_refused right, Value.mismatch_eq kind]
  | list elements => exact elements.arrayLength name

/-- Alike values of a struct are alike records, or no records for the same reason. -/
theorem FieldCodec.Alike.struct_cases {layout : Layout} {v w : Value}
    (h : (FieldCodec.struct layout).Alike v w) :
    (∃ a b, v = .record a ∧ w = .record b ∧ layout.Alike a b) ∨
      ∀ name, ∃ fault, v.asRecord name = .error fault ∧ w.asRecord name = .error fault := by
  cases h with
  | same =>
    cases v with
    | record fields => exact .inl ⟨fields, fields, rfl, rfl, Layout.alike_of_get? fun _ _ _ => rfl⟩
    | _ => exact .inr fun name => ⟨_, rfl, rfl⟩
  | refused left right kind =>
    right
    intro name
    refine ⟨v.mismatch name "record", Value.asRecord_of_refused left name, ?_⟩
    rw [Value.asRecord_of_refused right, Value.mismatch_eq kind]
  | struct inner => exact .inl ⟨_, _, rfl, rfl, inner⟩

/-- Under a name for which two records are alike both have nothing, or alike values. -/
theorem Record.require_cases {codec : FieldCodec Layout} {a b : Record} {name : String}
    (h : Option.Rel codec.Alike (a.get? name) (b.get? name)) :
    (∃ fault, a.require name = .error fault ∧ b.require name = .error fault) ∨
      ∃ v w, a.require name = .ok v ∧ b.require name = .ok w ∧ codec.Alike v w := by
  unfold Record.require
  generalize a.get? name = first, b.get? name = second at h ⊢
  cases h with
  | none => exact .inl ⟨_, rfl, rfl⟩
  | some hsame => exact .inr ⟨_, _, rfl, rfl, hsame⟩

/-! ## Plans -/

namespace Layout

/-- Alike records have one plan. -/
def PlansAlike (layout : Layout) : Prop := ∀ a b, layout.Alike a b → layout.plan a = layout.plan b

variable {a b : Record}

/-- What is made of the values under a name is the same, when it is the same of alike values. -/
theorem require_bind_alike {α : Type} {codec : FieldCodec Layout} {name : String}
    (h : Option.Rel codec.Alike (a.get? name) (b.get? name)) {f : Value → Except CodecError α}
    (hf : ∀ v w, codec.Alike v w → f v = f w) :
    (a.require name >>= f) = (b.require name >>= f) := by
  rcases Record.require_cases h with ⟨fault, ha, hb⟩ | ⟨v, w, ha, hb, hsame⟩
  · rw [ha, hb]
  · rw [ha, hb]
    exact hf v w hsame

theorem planField_alike {codec : FieldCodec Layout}
    (hnested : ∀ inner ∈ codec.nested, inner.PlansAlike) {slot : Slot}
    (h : Option.Rel codec.Alike (a.get? slot.name) (b.get? slot.name)) (names : List String)
    (counts : List (Nat × Nat)) :
    planField codec slot names a counts = planField codec slot names b counts := by
  cases codec with
  | scalar type => rw [planField, planField]
  | text width =>
    cases width with
    | fixed capacity => rw [planField, planField]
    | counted source =>
      rw [planField, planField]
      refine require_bind_alike h fun v w hsame => ?_
      rw [Codec.textLength_alike hsame]
  | array element length => rw [planField, planField]
  | list element source =>
    rw [planField, planField]
    refine require_bind_alike h fun v w hsame => ?_
    rw [Codec.arrayLength_alike hsame]
  | struct layout =>
    rw [planField, planField]
    by_cases hdynamic : layout.isDynamic = true
    · rw [if_pos hdynamic, if_pos hdynamic]
      refine require_bind_alike h fun v w hsame => ?_
      rcases hsame.struct_cases with ⟨c, d, rfl, rfl, hinner⟩ | hfault
      · have hplan := hnested layout (by simp [FieldCodec.nested]) c d hinner
        simp only [Value.asRecord, bind, Except.bind, hplan]
      · obtain ⟨fault, hv, hw⟩ := hfault slot.name
        rw [hv, hw]
    · rw [if_neg hdynamic, if_neg hdynamic]

/-- A size field is sized without a look at the record, and any other field alike. -/
theorem planFields_alike {fields : List (FieldLayout Layout)}
    (hsizes : ∀ field ∈ fields, field.isSizeField = true → ∃ type, field.codec = .scalar type)
    (hnested : ∀ field ∈ fields, ∀ inner ∈ field.codec.nested, inner.PlansAlike)
    (h : ∀ field ∈ fields, field.isSizeField = false →
      Option.Rel field.codec.Alike (a.get? field.name) (b.get? field.name))
    (names : List String) (spans : List Nat) (counts : List (Nat × Nat)) :
    planFields fields names a spans counts = planFields fields names b spans counts := by
  induction fields generalizing spans counts with
  | nil => rw [planFields, planFields]
  | cons field fields ih =>
    have hrest := ih (fun other hother => hsizes other (by simp [hother]))
      (fun other hother => hnested other (by simp [hother]))
      (fun other hother => h other (by simp [hother]))
    have hfield : planField field.codec field.toSlot names a counts =
        planField field.codec field.toSlot names b counts := by
      cases hsize : field.isSizeField with
      | true =>
        obtain ⟨type, htype⟩ := hsizes field (by simp) hsize
        rw [htype, planField, planField]
      | false => exact planField_alike (hnested field (by simp)) (h field (by simp) hsize) _ _
    obtain ⟨slot, codec⟩ := field
    rw [planFields, planFields, hfield]
    simp only [hrest]

theorem plan_eq (layout : Layout) (record : Record) :
    layout.plan record = (do
      let (spans, counts) ← planFields layout.fields (layout.fields.map (·.name)) record [] []
      let length ← Codec.locate layout.name 0 layout.stop spans
      return ⟨spans, counts, length⟩) := by
  cases layout
  rw [plan]

/-- Alike records have one plan. -/
theorem WellFormed.plan_alike {layout : Layout} (h : layout.WellFormed) : layout.PlansAlike := by
  induction h with
  | @intro layout coherent _ ih =>
    intro a b halike
    rw [plan_eq, plan_eq, planFields_alike (fun field hfield => coherent.codec_of_mem hfield)
      (fun field hfield inner hinner => ih inner (mem_nested hfield hinner)) (alike_iff.mp halike)]

end Layout

end PacketWire
