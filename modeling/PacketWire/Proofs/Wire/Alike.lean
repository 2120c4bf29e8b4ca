import Mathlib.Data.List.Forall2
import PacketWire.Proofs.Wire.Normal

/-!
# Records that a layout cannot tell apart

Two records are alike under a layout when they hold the same for every field that counts nothing:
nothing in both, or values that are alike in turn. What they hold for size fields, what else they
hold and in what order they hold it makes no difference, at any depth. An array of bytes and the
byte string of it are alike, and so are two values of one kind that a field wants none of.

* `Layout.Alike`: a layout cannot tell two records apart.
* `Layout.alike_iff`: records are alike when they are alike field by field.
* `Layout.alike_of_get?`, `Layout.alike_set`: only the fields that count nothing are compared.
* `Layout.WellFormed.alike_normal`: a record and its normal form are alike.
-/

namespace PacketWire

/-! ## The relation -/

/-- A value is of the kind that a field wants. -/
def FieldCodec.Takes : FieldCodec Layout → Value → Prop
  | .scalar type, .scalar s => s.type = type
  | .text _, .text _ => True
  | .array _ _, .bytes _ | .array _ _, .array _ => True
  | .list _ _, .bytes _ | .list _ _, .array _ => True
  | .struct _, .record _ => True
  | _, _ => False

/-- The field that an element would be on its own. -/
def ElementCodec.single : ElementCodec Layout → FieldCodec Layout
  | .scalar type => .scalar type
  | .struct layout => .struct layout

mutual
/-- Two records hold the same for every field that counts nothing. -/
inductive Layout.Alike : Layout → Record → Record → Prop
  | intro {layout : Layout} {a b : Record}
      (missing : ∀ field ∈ layout.fields, field.isSizeField = false →
        (a.get? field.name = none ↔ b.get? field.name = none))
      (present : ∀ field ∈ layout.fields, field.isSizeField = false →
        ∀ v w, a.get? field.name = some v → b.get? field.name = some w →
          FieldCodec.Alike field.codec v w) :
      Layout.Alike layout a b

/-- Two values are the same for a field that counts nothing. -/
inductive FieldCodec.Alike : FieldCodec Layout → Value → Value → Prop
  | same {codec : FieldCodec Layout} (v : Value) : FieldCodec.Alike codec v v
  /-- Of a value that it does not want, a field sees the kind. -/
  | refused {codec : FieldCodec Layout} {v w : Value} (left : ¬codec.Takes v)
      (right : ¬codec.Takes w) (kind : v.kindName = w.kindName) : FieldCodec.Alike codec v w
  | array {element : ElementCodec Layout} {length : Nat} {v w : Value}
      (elements : ElementCodec.Alike element v w) : FieldCodec.Alike (.array element length) v w
  | list {element : ElementCodec Layout} {source : Nat} {v w : Value}
      (elements : ElementCodec.Alike element v w) : FieldCodec.Alike (.list element source) v w
  | struct {layout : Layout} {a b : Record} (inner : Layout.Alike layout a b) :
      FieldCodec.Alike (.struct layout) (.record a) (.record b)

/-- Two values are the same as arrays of some elements. -/
inductive ElementCodec.Alike : ElementCodec Layout → Value → Value → Prop
  | items {element : ElementCodec Layout} {as bs : List Value} (length : as.length = bs.length)
      (each : ∀ v w, (v, w) ∈ as.zip bs → FieldCodec.Alike element.single v w) :
      ElementCodec.Alike element (.array as) (.array bs)
  | toBytes (b : Bytes) : ElementCodec.Alike (.scalar .u8) (.array (b.map Value.u8)) (.bytes b)
  | ofBytes (b : Bytes) : ElementCodec.Alike (.scalar .u8) (.bytes b) (.array (b.map Value.u8))
end

theorem ElementCodec.alike_of_forall₂ {element : ElementCodec Layout} {as bs : List Value}
    (h : List.Forall₂ (FieldCodec.Alike element.single) as bs) :
    ElementCodec.Alike element (.array as) (.array bs) := by
  obtain ⟨hlength, heach⟩ := List.forall₂_iff_zip.mp h
  exact .items hlength fun v w hpair => heach hpair

/-! ## What is compared -/

namespace Layout

/-- Records are alike when they are alike field by field. -/
theorem alike_iff {layout : Layout} {a b : Record} :
    layout.Alike a b ↔ ∀ field ∈ layout.fields, field.isSizeField = false →
      Option.Rel field.codec.Alike (a.get? field.name) (b.get? field.name) := by
  constructor
  · rintro ⟨hmissing, hpresent⟩ field hfield hsize
    have hnone := hmissing field hfield hsize
    have hsome := hpresent field hfield hsize
    cases hv : a.get? field.name with
    | none =>
      rw [hnone.mp hv]
      exact .none
    | some v =>
      cases hw : b.get? field.name with
      | none =>
        rw [hnone.mpr hw] at hv
        cases hv
      | some w => exact .some (hsome v w hv hw)
  · intro h
    constructor
    · intro field hfield hsize
      have hrel := h field hfield hsize
      generalize a.get? field.name = first, b.get? field.name = second at hrel ⊢
      cases hrel with
      | none => exact Iff.rfl
      | some _ => exact iff_of_false nofun nofun
    · intro field hfield hsize v w hv hw
      have hrel := h field hfield hsize
      rw [hv, hw] at hrel
      cases hrel with
      | some hsame => exact hsame

/-- Records that hold the same for the fields that count nothing are alike. -/
theorem alike_of_get? {layout : Layout} {a b : Record}
    (h : ∀ field ∈ layout.fields, field.isSizeField = false →
      a.get? field.name = b.get? field.name) : layout.Alike a b := by
  rw [alike_iff]
  intro field hfield hsize
  rw [h field hfield hsize]
  cases b.get? field.name with
  | none => exact .none
  | some v => exact .some (.same v)

/-- A value under a name that no such field has makes no difference. -/
theorem alike_set {layout : Layout} (record : Record) {name : String}
    (h : ∀ field ∈ layout.fields, field.isSizeField = false → field.name ≠ name) (value : Value) :
    layout.Alike (record.set name value) record := by
  apply alike_of_get?
  intro field hfield hsize
  rw [Fields.get?_set, if_neg (h field hfield hsize)]

end Layout

/-! ## Normal forms -/

theorem forall₂_of_mapM {α β : Type} {f : α → Option β} {items : List α} {found : List β}
    (h : items.mapM f = some found) : List.Forall₂ (fun a b => f a = some b) items found := by
  induction items generalizing found with
  | nil =>
    rw [List.mapM_nil] at h
    cases h
    exact .nil
  | cons a items ih =>
    simp only [List.mapM_cons, Option.bind_eq_bind, Option.bind_eq_some_iff] at h
    obtain ⟨b, hb, later, hlater, hpair⟩ := h
    cases hpair
    exact .cons hb (ih hlater)

/-- The scalar of a byte, from the byte. -/
theorem Value.eq_u8_of_byte? {value : Value} {b : UInt8} (h : value.byte? = some b) :
    value = .u8 b := by
  cases value with
  | scalar s =>
    obtain ⟨type, bits⟩ := s
    rw [Value.byte?] at h
    split at h
    · next htype =>
      dsimp only at htype
      subst htype
      cases h
      have hbits : (UInt8.ofNat bits.toNat).toBitVec = bits := BitVec.ofNat_toNat ..
      rw [Value.u8, hbits]
    · cases h
  | _ => cases h

theorem Value.eq_map_u8_of_mapM {items : List Value} {b : Bytes}
    (h : items.mapM Value.byte? = some b) : items = b.map Value.u8 := by
  have hbytes := forall₂_of_mapM h
  clear h
  induction hbytes with
  | nil => rfl
  | cons hbyte _ ih => rw [Value.eq_u8_of_byte? hbyte, ih, List.map_cons]

/-- A record and its normal form are alike. -/
def Layout.AlikeNormal (layout : Layout) : Prop :=
  ∀ record normal, layout.normal? record = some normal → layout.Alike record normal

theorem ElementCodec.alike_normal {element : ElementCodec Layout}
    (hnested : ∀ inner ∈ element.nested, inner.AlikeNormal) {v w : Value}
    (h : element.normal? v = some w) : v = w ∨ element.Alike v w := by
  cases element with
  | scalar type =>
    by_cases hbyte : type = .u8
    · subst hbyte
      cases v with
      | array items =>
        rw [ElementCodec.normal?] at h
        obtain ⟨b, hb, rfl⟩ := Option.map_eq_some_iff.mp h
        rw [Value.eq_map_u8_of_mapM hb]
        exact .inr (.toBytes b)
      | _ => exact .inl (Option.some.inj h)
    · left
      cases type <;> first | exact Option.some.inj h | exact absurd rfl hbyte
  | struct layout =>
    have hinner := hnested layout (by simp [ElementCodec.nested])
    cases v with
    | array items =>
      rw [ElementCodec.normal?] at h
      obtain ⟨found, hfound, rfl⟩ := Option.map_eq_some_iff.mp h
      right
      apply ElementCodec.alike_of_forall₂
      refine (forall₂_of_mapM hfound).imp ?_
      intro item normal hitem
      obtain ⟨record, hrecord, hnormal⟩ := Option.bind_eq_some_iff.mp hitem
      obtain ⟨inner, hmatch, rfl⟩ := Option.map_eq_some_iff.mp hnormal
      cases item with
      | record fields =>
        cases hrecord
        exact .struct (hinner _ _ hmatch)
      | _ => cases hrecord
    | _ => exact .inl (Option.some.inj h)

theorem FieldCodec.alike_normal {codec : FieldCodec Layout}
    (hnested : ∀ inner ∈ codec.nested, inner.AlikeNormal) {v w : Value}
    (h : codec.normal? v = some w) : codec.Alike v w := by
  cases codec with
  | scalar type =>
    cases h
    exact .same v
  | text width =>
    cases h
    exact .same v
  | array element length =>
    rw [FieldCodec.normal?] at h
    rcases element.alike_normal hnested h with rfl | helements
    · exact .same v
    · exact .array helements
  | list element source =>
    rw [FieldCodec.normal?] at h
    rcases element.alike_normal hnested h with rfl | helements
    · exact .same v
    · exact .list helements
  | struct layout =>
    cases v with
    | record fields =>
      rw [FieldCodec.normal?] at h
      obtain ⟨inner, hinner, rfl⟩ := Option.map_eq_some_iff.mp h
      exact .struct (hnested layout (by simp [FieldCodec.nested]) fields inner hinner)
    | _ => cases h

/-- A record and its normal form are alike. -/
theorem Layout.WellFormed.alike_normal {layout : Layout} (h : layout.WellFormed) :
    layout.AlikeNormal := by
  induction h with
  | @intro layout coherent _ ih =>
    intro record normal hnormal
    obtain ⟨-, hget⟩ := normal?_eq_some coherent hnormal
    rw [alike_iff]
    intro field hfield hsize
    obtain ⟨w, hw, hfound⟩ := hget field hfield
    rw [FieldLayout.normal?, if_neg (by simp [hsize])] at hfound
    obtain ⟨v, hv, hsame⟩ := Option.bind_eq_some_iff.mp hfound
    rw [hv, hw]
    exact .some (field.codec.alike_normal (fun inner hinner => ih inner (mem_nested hfield hinner))
      hsame)

end PacketWire
