import PacketWire.Proofs.Codec.Alike
import PacketWire.Proofs.Codec.Measure
import PacketWire.Proofs.Codec.Write
import PacketWire.Proofs.Layout.Unbound
import PacketWire.Proofs.Value.Equality

/-!
# Coding without bindings

A layout sizes, writes and measures what it does when its bindings are forgotten. It also reads the
same: the same fault, or the same length and a record that differs in the order of names alone, at
any depth.

* `Layout.WellFormed.sameWire`: sizing, writing and measuring.
* `Outcomes`: two computations fail with one fault, or both give results that are related.
* `SameReading`, `Layout.WellFormed.readsAlike`: reading.
-/

namespace PacketWire

/-! ## Sizing, writing and measuring -/

/-- The layout sizes, writes and measures as it does without its bindings. -/
structure Layout.SameWire (layout : Layout) : Prop where
  plan : ∀ record, layout.unbound.plan record = layout.plan record
  write : ∀ record p base, layout.unbound.write record p base = layout.write record p base
  measure : ∀ buf base, layout.unbound.measure buf base = layout.measure buf base

namespace Layout

theorem unbound_cons (field : FieldLayout Layout) (fields : List (FieldLayout Layout)) :
    (field :: fields).map FieldLayout.unbound =
      ⟨field.toSlot.unbound, field.codec.unbound⟩ :: fields.map FieldLayout.unbound :=
  rfl

theorem map_name_unbound (fields : List (FieldLayout Layout)) :
    (fields.map FieldLayout.unbound).map (·.name) = fields.map (·.name) := by
  rw [List.map_map]
  rfl

theorem spanOf_unbound (layout : Layout) (length : Nat) :
    Codec.spanOf layout.unbound length = Codec.spanOf layout length := by
  rw [Codec.spanOf, Codec.spanOf, staticSize_unbound]

theorem writeElements_unbound {element : ElementCodec Layout}
    (hnested : ∀ inner ∈ element.nested, inner.SameWire) (field : String) (value : Value)
    (position : Nat) :
    writeElements element.unbound field value position =
      writeElements element field value position := by
  cases element with
  | scalar type => rw [ElementCodec.unbound]
  | struct layout =>
    have hlayout := hnested layout (by simp [ElementCodec.nested])
    rw [ElementCodec.unbound]
    cases value with
    | array items =>
      rw [writeElements, writeElements]
      simp only [hlayout.plan, hlayout.write, staticSize_unbound]
    | _ => simp only [writeElements]

section Field

variable {codec : FieldCodec Layout} (hnested : ∀ inner ∈ codec.nested, inner.SameWire)
  (slot : Slot) (names : List String) (record : Record)
include hnested

theorem planField_unbound (counts : List (Nat × Nat)) :
    planField codec.unbound slot.unbound names record counts =
      planField codec slot names record counts := by
  cases codec with
  | scalar type => rw [FieldCodec.unbound, planField, planField]
  | text width =>
    rw [FieldCodec.unbound]
    cases width with
    | fixed bytes => rw [planField, planField]
    | counted source =>
      rw [planField, planField]
      rfl
  | array element length => rw [FieldCodec.unbound, planField, planField]
  | list element source =>
    rw [FieldCodec.unbound, planField, planField, element.size_unbound]
    rfl
  | struct layout =>
    have hlayout := hnested layout (by simp [FieldCodec.nested])
    rw [FieldCodec.unbound, planField, planField, layout.isDynamic_unbound]
    simp only [hlayout.plan, spanOf_unbound]
    rfl

theorem measureField_unbound (buf : Bytes) (position : Nat) (counts : List Nat) :
    measureField codec.unbound slot.unbound buf position counts =
      measureField codec slot buf position counts := by
  cases codec with
  | scalar type =>
    rw [FieldCodec.unbound, measureField, measureField]
    rfl
  | text width =>
    rw [FieldCodec.unbound]
    cases width with
    | fixed bytes => rw [measureField, measureField]
    | counted source =>
      rw [measureField, measureField]
      rfl
  | array element length => rw [FieldCodec.unbound, measureField, measureField]
  | list element source =>
    rw [FieldCodec.unbound, measureField, measureField, element.size_unbound]
    rfl
  | struct layout =>
    have hlayout := hnested layout (by simp [FieldCodec.nested])
    rw [FieldCodec.unbound, measureField, measureField, layout.isDynamic_unbound]
    simp only [hlayout.measure, spanOf_unbound]

theorem writeField_unbound (count : Option Nat) (position : Nat) :
    writeField codec.unbound slot.unbound names record count position =
      writeField codec slot names record count position := by
  cases codec with
  | scalar type =>
    rw [FieldCodec.unbound]
    cases count <;> rw [writeField, writeField] <;> rfl
  | text width =>
    rw [FieldCodec.unbound, writeField, writeField]
    rfl
  | array element length =>
    rw [FieldCodec.unbound, writeField, writeField]
    simp only [writeElements_unbound hnested]
    rfl
  | list element source =>
    rw [FieldCodec.unbound, writeField, writeField]
    simp only [writeElements_unbound hnested]
    rfl
  | struct layout =>
    have hlayout := hnested layout (by simp [FieldCodec.nested])
    rw [FieldCodec.unbound, writeField, writeField]
    simp only [hlayout.plan, hlayout.write]
    rfl

end Field

section Fields

variable {fields : List (FieldLayout Layout)}
  (hnested : ∀ field ∈ fields, ∀ inner ∈ field.codec.nested, inner.SameWire)
include hnested

theorem planFields_unbound (names : List String) (record : Record) (spans : List Nat)
    (counts : List (Nat × Nat)) :
    planFields (fields.map FieldLayout.unbound) names record spans counts =
      planFields fields names record spans counts := by
  induction fields generalizing spans counts with
  | nil => rfl
  | cons field fields ih =>
    obtain ⟨hfirst, hrest⟩ := List.forall_mem_cons.mp hnested
    rw [unbound_cons, planFields, planFields, planField_unbound hfirst]
    simp only [ih hrest]

theorem measureFields_unbound (buf : Bytes) (base : Nat) (spans counts : List Nat) :
    measureFields (fields.map FieldLayout.unbound) buf base spans counts =
      measureFields fields buf base spans counts := by
  induction fields generalizing spans counts with
  | nil => rfl
  | cons field fields ih =>
    obtain ⟨hfirst, hrest⟩ := List.forall_mem_cons.mp hnested
    rw [unbound_cons, measureFields_cons, measureFields_cons]
    simp only [measureField_unbound hfirst, ih hrest]
    rfl

theorem writeFields_unbound (names : List String) (record : Record) (p : Plan)
    (base index : Nat) :
    writeFields (fields.map FieldLayout.unbound) names record p base index =
      writeFields fields names record p base index := by
  induction fields generalizing index with
  | nil => rfl
  | cons field fields ih =>
    obtain ⟨hfirst, hrest⟩ := List.forall_mem_cons.mp hnested
    rw [unbound_cons, writeFields_cons, writeFields_cons]
    simp only [writeField_unbound hfirst, ih hrest]
    rfl

end Fields

theorem WellFormed.sameWire {layout : Layout} (h : layout.WellFormed) : layout.SameWire := by
  induction h with
  | @intro layout _ _ ih =>
    have hnested : ∀ field ∈ layout.fields, ∀ inner ∈ field.codec.nested, inner.SameWire :=
      fun field hfield inner hinner => ih inner (mem_nested hfield hinner)
    constructor
    · intro record
      rw [unbound_eq, plan_eq, plan_eq]
      simp only [planFields_unbound hnested, map_name_unbound]
    · intro record p base
      rw [unbound_eq, write_eq, write_eq]
      simp only [writeFields_unbound hnested, map_name_unbound]
    · intro buf base
      rw [unbound_eq, measure_eq, measure_eq]
      simp only [measureFields_unbound hnested]

end Layout

/-! ## Outcomes -/

/-- Two computations fail with one fault, or both give results, which are related. -/
inductive Outcomes {ε α β : Type} (R : α → β → Prop) : Except ε α → Except ε β → Prop
  | ok {a : α} {b : β} : R a b → Outcomes R (.ok a) (.ok b)
  | error (fault : ε) : Outcomes R (.error fault) (.error fault)

namespace Outcomes

variable {ε α β γ δ : Type} {R : α → β → Prop} {S : γ → δ → Prop}

theorem same (x : Except ε α) : Outcomes Eq x x := by
  cases x with
  | ok a => exact .ok rfl
  | error fault => exact .error fault

theorem exists_ok {a : α} {y : Except ε β} (h : Outcomes R (.ok a) y) :
    ∃ b, y = .ok b ∧ R a b := by
  cases h with
  | ok hab => exact ⟨_, rfl, hab⟩

theorem symm {x : Except ε α} {y : Except ε β} {Q : β → α → Prop} (h : Outcomes R x y)
    (hR : ∀ a b, R a b → Q b a) : Outcomes Q y x := by
  cases h with
  | ok hab => exact .ok (hR _ _ hab)
  | error fault => exact .error fault

theorem trans {x : Except ε α} {y : Except ε β} {z : Except ε γ} {P : β → γ → Prop}
    {Q : α → γ → Prop} (h : Outcomes R x y) (h' : Outcomes P y z)
    (hRP : ∀ a b c, R a b → P b c → Q a c) : Outcomes Q x z := by
  cases h with
  | ok hab =>
    cases h' with
    | ok hbc => exact .ok (hRP _ _ _ hab hbc)
  | error fault =>
    cases h'
    exact .error fault

/-- Computations that are the same once their results are mapped. -/
theorem of_map_eq {x : Except ε α} {y : Except ε β} {f : α → γ} {g : β → γ}
    (h : x.map f = y.map g) (hR : ∀ a b, x = .ok a → y = .ok b → f a = g b → R a b) :
    Outcomes R x y := by
  cases x with
  | ok a =>
    cases y with
    | ok b => exact .ok (hR a b rfl rfl (Except.ok.inj h))
    | error fault => cases h
  | error fault =>
    cases y with
    | ok b => cases h
    | error fault' =>
      cases h
      exact .error fault

theorem bind {x : Except ε α} {y : Except ε β} {f : α → Except ε γ} {g : β → Except ε δ}
    (h : Outcomes R x y) (hfg : ∀ a b, R a b → Outcomes S (f a) (g b)) :
    Outcomes S (x >>= f) (y >>= g) := by
  cases h with
  | ok hab => exact hfg _ _ hab
  | error fault => exact .error fault

/-- What begins alike ends alike when the rest does. -/
theorem bind_same {x : Except ε α} {f : α → Except ε γ} {g : α → Except ε δ}
    (hfg : ∀ a, Outcomes S (f a) (g a)) : Outcomes S (x >>= f) (x >>= g) :=
  (same x).bind fun a _ hab => hab ▸ hfg a

theorem mapM {f : γ → Except ε α} {g : γ → Except ε β} (hfg : ∀ c, Outcomes R (f c) (g c))
    (items : List γ) : Outcomes (List.Forall₂ R) (items.mapM f) (items.mapM g) := by
  induction items with
  | nil => exact .ok .nil
  | cons c items ih =>
    rw [List.mapM_cons, List.mapM_cons]
    exact (hfg c).bind fun a b hab => ih.bind fun as bs hrest => .ok (.cons hab hrest)

end Outcomes

/-! ## Reading -/

namespace Value

theorem Rearranged.countOf_eq {v w : Value} (h : Rearranged v w) (name : String) :
    Codec.countOf name v = Codec.countOf name w := by
  cases h with
  | scalar hab => rw [hab]
  | _ => rfl

theorem Distinct.rearranged {v : Value} (h : v.Distinct) : Rearranged v v :=
  h.corresponds_self_iff.mpr fun _ _ => rfl

end Value

/-- Two readings took as many bytes, and gave the same record up to the order of names, at any
depth. -/
structure SameReading (a b : Record × Nat) : Prop where
  record : Value.Rearranged (.record a.1) (.record b.1)
  length : a.2 = b.2

theorem SameReading.symm {a b : Record × Nat} (h : SameReading a b) : SameReading b a :=
  ⟨h.record.symm fun _ _ => Eq.symm, h.length.symm⟩

theorem SameReading.trans {a b c : Record × Nat} (h : SameReading a b) (h' : SameReading b c) :
    SameReading a c :=
  ⟨h.record.trans (fun u v w (huv : u = v) (hvw : v = w) => huv.trans hvw) h'.record,
    h.length.trans h'.length⟩

/-- The layout reads as it does without its bindings. -/
def Layout.ReadsAlike (layout : Layout) : Prop :=
  ∀ buf base, Outcomes SameReading (layout.decodeFrom buf base)
    (layout.unbound.decodeFrom buf base)

namespace Layout

open Value (Rearranged)

/-- What is read of scalars has no names. -/
theorem distinct_of_readScalars {type : Primitive} {buf : Bytes} {position count : Nat}
    {value : Value} (h : readScalars type buf position count = .ok value) : value.Distinct := by
  rcases readScalars_cases h with ⟨raw, rfl⟩ | ⟨items, rfl⟩
  · exact .bytes raw
  · refine .array fun item hitem => ?_
    obtain ⟨s, -, rfl⟩ := List.mem_map.mp hitem
    exact .scalar s

theorem decodeElements_unbound {element : ElementCodec Layout}
    (hnested : ∀ inner ∈ element.nested, inner.ReadsAlike) (buf : Bytes) (position count : Nat) :
    Outcomes Rearranged (decodeElements element buf position count)
      (decodeElements element.unbound buf position count) := by
  cases element with
  | scalar type =>
    rw [ElementCodec.unbound, decodeElements]
    cases h : readScalars type buf position count with
    | ok value => exact .ok (distinct_of_readScalars h).rearranged
    | error fault => exact .error fault
  | struct layout =>
    have hlayout := hnested layout (by simp [ElementCodec.nested])
    rw [ElementCodec.unbound, decodeElements, decodeElements, layout.staticSize_unbound]
    refine Outcomes.bind_same fun _ => (Outcomes.mapM (fun k => hlayout buf _) _).bind ?_
    intro items items' hitems
    refine .ok (.array (by simpa using hitems.length_eq) fun i a b ha hb => ?_)
    rw [List.getElem?_map, Option.map_eq_some_iff] at ha hb
    obtain ⟨item, hitem, rfl⟩ := ha
    obtain ⟨item', hitem', rfl⟩ := hb
    exact (forall₂_getElem? hitems hitem hitem').record

theorem decodeField_unbound {codec : FieldCodec Layout}
    (hnested : ∀ inner ∈ codec.nested, inner.ReadsAlike) (field : String) (buf : Bytes)
    (position : Nat) (counts : List Nat) :
    Outcomes (fun a b => Rearranged a.1 b.1 ∧ a.2 = b.2)
      (decodeField codec field buf position counts)
      (decodeField codec.unbound field buf position counts) := by
  cases codec with
  | scalar type =>
    rw [FieldCodec.unbound, decodeField]
    exact Outcomes.bind_same fun s => .ok ⟨.scalar rfl, rfl⟩
  | text width =>
    rw [FieldCodec.unbound]
    cases width with
    | fixed bytes =>
      rw [decodeField]
      exact Outcomes.bind_same fun s => .ok ⟨.text s, rfl⟩
    | counted source =>
      rw [decodeField]
      exact Outcomes.bind_same fun s => .ok ⟨.text s, rfl⟩
  | array element length =>
    rw [FieldCodec.unbound, decodeField, decodeField]
    exact (decodeElements_unbound hnested buf position length).bind fun a b hab => .ok ⟨hab, rfl⟩
  | list element source =>
    rw [FieldCodec.unbound, decodeField, decodeField, element.size_unbound]
    exact Outcomes.bind_same fun span =>
      (decodeElements_unbound hnested buf position _).bind fun a b hab => .ok ⟨hab, rfl⟩
  | struct layout =>
    have hlayout := hnested layout (by simp [FieldCodec.nested])
    rw [FieldCodec.unbound, decodeField, decodeField]
    refine (hlayout buf position).bind ?_
    rintro ⟨inner, length⟩ ⟨inner', _⟩ ⟨hinner, rfl⟩
    dsimp only
    rw [spanOf_unbound]
    exact Outcomes.bind_same fun span => .ok ⟨hinner, rfl⟩

theorem decodeFields_unbound {fields : List (FieldLayout Layout)}
    (hnested : ∀ field ∈ fields, ∀ inner ∈ field.codec.nested, inner.ReadsAlike) (buf : Bytes)
    (base : Nat) (spans counts : List Nat) :
    Outcomes (fun a b => a.1.length = fields.length ∧ List.Forall₂ Rearranged a.1 b.1 ∧ a.2 = b.2)
      (decodeFields fields buf base spans counts)
      (decodeFields (fields.map FieldLayout.unbound) buf base spans counts) := by
  induction fields generalizing spans counts with
  | nil =>
    rw [List.map_nil, decodeFields]
    exact .ok ⟨rfl, .nil, rfl⟩
  | cons field fields ih =>
    obtain ⟨hfirst, hrest⟩ := List.forall_mem_cons.mp hnested
    rw [unbound_cons, decodeFields_cons, decodeFields_cons]
    refine Outcomes.bind_same fun position => ?_
    refine (decodeField_unbound hfirst field.name buf position counts).bind fun a b hab => ?_
    have hcount : (if field.isSizeField then Codec.countOf field.name a.1 else .ok 0) =
        if field.isSizeField then Codec.countOf field.name b.1 else .ok 0 := by
      rw [hab.1.countOf_eq]
    rw [hcount, hab.2]
    refine Outcomes.bind_same fun count => (ih hrest _ _).bind fun later later' hlater => ?_
    exact .ok ⟨congrArg (· + 1) hlater.1, .cons hab.1 hlater.2.1, hlater.2.2⟩

/-- Related values under the same names make records that differ in the order of names. -/
theorem rearranged_assembleRecord {names : List String} {order order' : List Nat}
    {values values' : List Value} (hnames : names.Nodup)
    (horder : order.Perm (List.range names.length))
    (horder' : order'.Perm (List.range names.length)) (hlength : values.length = names.length)
    (hvalues : List.Forall₂ Rearranged values values') :
    Rearranged (.record (assembleRecord names order values))
      (.record (assembleRecord names order' values')) := by
  have hlength' : values'.length = names.length := hvalues.length_eq ▸ hlength
  rw [assembleRecord_eq_arrange hnames (horder.nodup_iff.mpr List.nodup_range),
    assembleRecord_eq_arrange hnames (horder'.nodup_iff.mpr List.nodup_range)]
  refine .record ((Record.names_arrange hlength horder).trans
    (Record.names_arrange hlength' horder').symm) fun name a b ha hb => ?_
  obtain ⟨i, hname, hget⟩ := Record.exists_of_get?_arrange hnames hlength horder ha
  obtain ⟨j, hname', hget'⟩ := Record.exists_of_get?_arrange hnames hlength' horder' hb
  -- both values stand at the one index of the name
  have hi := (List.getElem?_eq_some_iff.mp hname).1
  rw [← (List.getElem?_inj hi hnames).mp (hname.trans hname'.symm)] at hget'
  exact forall₂_getElem? hvalues hget hget'

theorem WellFormed.readsAlike {layout : Layout} (h : layout.WellFormed) : layout.ReadsAlike := by
  induction h with
  | @intro layout coherent _ ih =>
    intro buf base
    have hfields := decodeFields_unbound
      (fun field hfield inner hinner => ih inner (mem_nested hfield hinner)) buf base [] []
    have horder : layout.buildOrder.Perm (List.range (layout.fields.map (·.name)).length) := by
      rw [List.length_map]
      exact coherent.order
    have hwire : (List.range layout.fields.length).Perm
        (List.range (layout.fields.map (·.name)).length) := by
      rw [List.length_map]
    rw [unbound_eq, decodeFrom_eq, decodeFrom_eq]
    refine hfields.bind ?_
    rintro ⟨values, spans⟩ ⟨values', _⟩ ⟨hlength, hvalues, rfl⟩
    dsimp only
    rw [map_name_unbound]
    refine Outcomes.bind_same fun length => .ok ⟨?_, rfl⟩
    exact rearranged_assembleRecord coherent.names horder hwire (by simpa using hlength) hvalues

end Layout

end PacketWire
