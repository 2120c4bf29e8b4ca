import PacketWire.Proofs.Codec.Cursor
import PacketWire.Proofs.Codec.Measure

/-!
# Why reading fails

A record is not read where the bytes run out and where a size field is negative. A well-formed
layout gives no other reason: its size fields are integers, its nested structs cover their fixed
part, and no access leaves the buffer once its bounds are checked.

* `ShortOnlyIf`: what fails only for want of bytes; the readers of scalars and texts do.
* `Layout.WellFormed.decodeFrom_blamesBytes`: every fault of `decodeFrom` is one of the bytes.
* `Layout.WellFormed.measure_blamesBytes`: so is every fault of `measure`.
-/

namespace PacketWire

/-- A fault of the bytes of a buffer: they run out, be it before a position that is no size, or they
hold a negative count. -/
inductive CodecError.OfBytes (buf : Bytes) : CodecError → Prop
  | short {required : Nat} (h : buf.length < required) :
      CodecError.OfBytes buf (.bufferTooShort required buf.length)
  | overflow (field : String) : CodecError.OfBytes buf (.sizeOverflow field)
  | negative (field : String) : CodecError.OfBytes buf (.negativeSize field)

/-- A computation whose every fault is one of the bytes. -/
def BlamesBytes {α : Type} (buf : Bytes) (x : Except CodecError α) : Prop :=
  ∀ fault, x = .error fault → fault.OfBytes buf

/-- A computation that fails only for want of bytes, and only if `lack` holds. -/
def ShortOnlyIf {α : Type} (buf : Bytes) (lack : Prop) (x : Except CodecError α) : Prop :=
  FailsWith (fun fault =>
    lack ∧ ∃ required, buf.length < required ∧ fault = .bufferTooShort required buf.length) x

/-! ## Steps -/

section

variable {α β : Type} {buf : Bytes} {lack : Prop} {position : Nat}

theorem blamesBytes_ok (a : α) : BlamesBytes buf (.ok a) :=
  failsWith_ok a

theorem blamesBytes_error {fault : CodecError} (h : fault.OfBytes buf) :
    BlamesBytes buf (.error fault : Except CodecError α) :=
  failsWith_error h

theorem BlamesBytes.bind {x : Except CodecError α} {f : α → Except CodecError β}
    (hx : BlamesBytes buf x) (hf : ∀ a, x = .ok a → BlamesBytes buf (f a)) :
    BlamesBytes buf (x >>= f) :=
  FailsWith.bind hx hf

theorem blamesBytes_mapM {f : α → Except CodecError β} (hf : ∀ a, BlamesBytes buf (f a))
    (items : List α) : BlamesBytes buf (items.mapM f) :=
  failsWith_mapM fun a _ => hf a

theorem shortOnlyIf_ok (a : α) : ShortOnlyIf buf lack (.ok a) :=
  failsWith_ok a

theorem ShortOnlyIf.mono {x : Except CodecError α} (h : ShortOnlyIf buf lack x) {other : Prop}
    (himp : lack → other) : ShortOnlyIf buf other x :=
  FailsWith.mono h fun _ hshort => hshort.imp_left himp

theorem ShortOnlyIf.bind {x : Except CodecError α} {f : α → Except CodecError β}
    (hx : ShortOnlyIf buf lack x) (hf : ∀ a, x = .ok a → ShortOnlyIf buf lack (f a)) :
    ShortOnlyIf buf lack (x >>= f) :=
  FailsWith.bind hx hf

theorem shortOnlyIf_mapM {f : α → Except CodecError β} {items : List α}
    (hf : ∀ a ∈ items, ShortOnlyIf buf lack (f a)) : ShortOnlyIf buf lack (items.mapM f) :=
  failsWith_mapM hf

/-- Want of bytes is a fault of the bytes. -/
theorem ShortOnlyIf.blamesBytes {x : Except CodecError α} (h : ShortOnlyIf buf lack x) :
    BlamesBytes buf x := by
  refine FailsWith.mono h ?_
  rintro fault ⟨-, required, hshort, rfl⟩
  exact .short hshort

theorem Codec.shortOnlyIf_ensure (required : Nat) :
    ShortOnlyIf buf (buf.length < required) (Codec.ensure buf required) := by
  intro fault h
  rw [Codec.ensure] at h
  split at h
  · next hshort =>
    cases h
    exact ⟨hshort, required, hshort, rfl⟩
  · cases h

theorem Codec.shortOnlyIf_slice {width : Nat} (h : position + width ≤ buf.length) :
    ShortOnlyIf buf lack (Codec.slice buf position width) := by
  rw [Codec.slice, Bytes.slice?, if_pos h]
  exact shortOnlyIf_ok _

theorem Codec.blamesBytes_ensure (required : Nat) :
    BlamesBytes buf (Codec.ensure buf required) :=
  (Codec.shortOnlyIf_ensure required).blamesBytes

theorem Codec.blamesBytes_locate (field : String) (base : Nat) (offset : Offset)
    (spans : List Nat) : BlamesBytes buf (Codec.locate field base offset spans) := by
  rw [Codec.locate]
  split
  · exact blamesBytes_ok _
  · exact blamesBytes_error (.overflow field)

theorem Codec.blamesBytes_scaled (field : String) (count scale : Nat) :
    BlamesBytes buf (Codec.scaled field count scale) := by
  rw [Codec.scaled]
  split
  · exact blamesBytes_ok _
  · exact blamesBytes_error (.overflow field)

/-- An integer is a count, unless it is negative. -/
theorem Codec.blamesBytes_countOf (field : String) {s : Scalar} {i : Int}
    (h : s.toInt? = some i) : BlamesBytes buf (Codec.countOf field (.scalar s)) := by
  rw [Codec.countOf, Value.toInt?, h]
  dsimp only
  split
  · exact blamesBytes_error (.negative field)
  · exact blamesBytes_ok _

/-- What a layout reads covers its fixed part. -/
theorem Codec.blamesBytes_spanOf {layout : Layout} {length : Nat}
    (h : layout.staticSize ≤ length) : BlamesBytes buf (Codec.spanOf layout length) := by
  rw [Codec.spanOf, if_pos h]
  exact blamesBytes_ok _

theorem Scalar.toInt?_ofBytes {type : Primitive} (h : type.isInteger = true) (raw : Bytes) :
    ∃ i, (Scalar.ofBytes type raw).toInt? = some i := by
  have hinteger : (Scalar.ofBytes type raw).type.isInteger = true := by
    rw [Scalar.type_ofBytes, h]
  rw [Scalar.toInt?, hinteger]
  by_cases hsigned : (Scalar.ofBytes type raw).type.isSigned = true
  · exact ⟨_, if_pos hsigned⟩
  · exact ⟨_, if_neg hsigned⟩

theorem Layout.staticSize_le_of_decodeFrom {layout : Layout} {record : Record} {length : Nat}
    (h : layout.decodeFrom buf position = .ok (record, length)) : layout.staticSize ≤ length := by
  obtain ⟨values, spans, -, hlength, -⟩ := Layout.decodeFrom_eq_ok_iff.mp h
  rw [← (Codec.locate_eq_ok_iff.mp hlength).1, Nat.zero_add]
  exact layout.stop.constant_le_total spans

variable (hlt : buf.length < Size.largest)
include hlt

/-- A buffer that passes the check for a window has the window. -/
theorem Codec.shortOnlyIf_ensure_window {width : Nat} {f : Unit → Except CodecError α}
    (hf : position + width ≤ buf.length →
      ShortOnlyIf buf (buf.length < position + width) (f ())) :
    ShortOnlyIf buf (buf.length < position + width)
      (Codec.ensure buf (Size.addSat position width) >>= f) := by
  refine ((Codec.shortOnlyIf_ensure _).mono fun hshort => ?_).bind fun _ hensure => ?_
  · exact Nat.lt_of_lt_of_le hshort (Nat.min_le_left _ _)
  · exact hf ((Size.le_addSat_iff hlt).mp (Codec.ensure_eq_ok_iff.mp hensure))

theorem Codec.shortOnlyIf_readScalar (type : Primitive) :
    ShortOnlyIf buf (buf.length < position + type.width) (Codec.readScalar type buf position) := by
  rw [Codec.readScalar]
  refine Codec.shortOnlyIf_ensure_window hlt fun hle => ?_
  exact (Codec.shortOnlyIf_slice hle).bind fun raw _ => shortOnlyIf_ok _

theorem Layout.shortOnlyIf_readText (width limit : Nat) :
    ShortOnlyIf buf (buf.length < position + width)
      (Layout.readText buf position width limit) := by
  rw [Layout.readText]
  refine Codec.shortOnlyIf_ensure_window hlt fun hle => ?_
  exact (Codec.shortOnlyIf_slice (by omega)).bind fun raw _ => shortOnlyIf_ok _

/-- A buffer that passes the check for elements has them all. -/
theorem Layout.shortOnlyIf_ensureElements {count size : Nat} {f : Unit → Except CodecError α}
    (hf : position + count * size ≤ buf.length →
      ShortOnlyIf buf (buf.length < position + count * size) (f ())) :
    ShortOnlyIf buf (buf.length < position + count * size)
      (Layout.ensureElements buf position count size >>= f) := by
  refine ((Codec.shortOnlyIf_ensure _).mono fun hshort => ?_).bind fun _ hensure => ?_
  · refine Nat.lt_of_not_le fun hle => ?_
    have hensured := Layout.ensureElements_eq_ok (Nat.lt_of_lt_pred hlt) hle
    exact Nat.not_le_of_lt hshort (Codec.ensure_eq_ok_iff.mp hensured)
  · exact hf (Layout.le_of_ensureElements hlt hensure)

theorem Layout.shortOnlyIf_readScalars (type : Primitive) (count : Nat) :
    ShortOnlyIf buf (buf.length < position + count * type.width)
      (Layout.readScalars type buf position count) := by
  by_cases hbyte : type = .u8
  · subst hbyte
    rw [Layout.readScalars]
    refine Layout.shortOnlyIf_ensureElements hlt fun hle => ?_
    rw [Primitive.width, Nat.mul_one] at hle
    exact (Codec.shortOnlyIf_slice hle).bind fun raw _ => shortOnlyIf_ok _
  · rw [Layout.readScalars.eq_2 _ _ _ _ hbyte]
    refine Layout.shortOnlyIf_ensureElements hlt fun _ => ?_
    refine (shortOnlyIf_mapM fun k hk => ?_).bind fun items _ => shortOnlyIf_ok _
    have hstop : (k + 1) * type.width ≤ count * type.width :=
      Nat.mul_le_mul_right _ (List.mem_range.mp hk)
    rw [Nat.succ_mul] at hstop
    exact (Codec.shortOnlyIf_readScalar hlt type).mono fun hshort => by omega

theorem Codec.blamesBytes_readScalar (type : Primitive) :
    BlamesBytes buf (Codec.readScalar type buf position) :=
  (Codec.shortOnlyIf_readScalar hlt type).blamesBytes

theorem Layout.blamesBytes_readText (width limit : Nat) :
    BlamesBytes buf (Layout.readText buf position width limit) :=
  (Layout.shortOnlyIf_readText hlt width limit).blamesBytes

theorem Layout.blamesBytes_readScalars (type : Primitive) (count : Nat) :
    BlamesBytes buf (Layout.readScalars type buf position count) :=
  (Layout.shortOnlyIf_readScalars hlt type count).blamesBytes

end

/-! ## Layouts -/

section

variable {buf : Bytes} (hlt : buf.length < Size.largest)
include hlt

theorem ElementCodec.blamesBytes_decode {element : ElementCodec Layout}
    (hnested : ∀ inner ∈ element.nested, ∀ position, BlamesBytes buf (inner.decodeFrom buf position))
    (position count : Nat) : BlamesBytes buf (Layout.decodeElements element buf position count) := by
  cases element with
  | scalar type =>
    rw [Layout.decodeElements]
    exact Layout.blamesBytes_readScalars hlt type count
  | struct layout =>
    have hlayout := hnested layout (by simp [ElementCodec.nested])
    rw [Layout.decodeElements]
    refine (Codec.blamesBytes_ensure _).bind fun _ _ => ?_
    refine (blamesBytes_mapM (fun k => hlayout _) _).bind fun items _ => ?_
    exact blamesBytes_ok _

theorem FieldCodec.blamesBytes_decode {codec : FieldCodec Layout}
    (hnested : ∀ inner ∈ codec.nested, ∀ position, BlamesBytes buf (inner.decodeFrom buf position))
    (name : String) (position : Nat) (counts : List Nat) :
    BlamesBytes buf (Layout.decodeField codec name buf position counts) := by
  cases codec with
  | scalar type =>
    rw [Layout.decodeField]
    exact (Codec.blamesBytes_readScalar hlt type).bind fun s _ => blamesBytes_ok _
  | text width =>
    cases width with
    | fixed capacity =>
      rw [Layout.decodeField]
      exact (Layout.blamesBytes_readText hlt _ _).bind fun s _ => blamesBytes_ok _
    | counted source =>
      rw [Layout.decodeField]
      exact (Layout.blamesBytes_readText hlt _ _).bind fun s _ => blamesBytes_ok _
  | array element length =>
    rw [Layout.decodeField]
    exact (ElementCodec.blamesBytes_decode hlt hnested _ _).bind fun value _ => blamesBytes_ok _
  | list element source =>
    rw [Layout.decodeField]
    refine (Codec.blamesBytes_scaled _ _ _).bind fun span _ => ?_
    exact (ElementCodec.blamesBytes_decode hlt hnested _ _).bind fun value _ => blamesBytes_ok _
  | struct layout =>
    rw [Layout.decodeField]
    refine (hnested layout (by simp [FieldCodec.nested]) position).bind fun _ h => ?_
    refine (Codec.blamesBytes_spanOf (Layout.staticSize_le_of_decodeFrom h)).bind fun span _ => ?_
    exact blamesBytes_ok _

theorem Layout.blamesBytes_decodeFields {fields : List (FieldLayout Layout)}
    (hnested : ∀ field ∈ fields, ∀ inner ∈ field.codec.nested, ∀ position,
      BlamesBytes buf (inner.decodeFrom buf position))
    (hsizes : ∀ field ∈ fields, field.isSizeField = true →
      ∃ type, field.codec = .scalar type ∧ type.isInteger = true)
    (base : Nat) (spans counts : List Nat) :
    BlamesBytes buf (decodeFields fields buf base spans counts) := by
  induction fields generalizing spans counts with
  | nil =>
    rw [decodeFields]
    exact blamesBytes_ok _
  | cons field fields ih =>
    have hrest := ih (fun other hother => hnested other (by simp [hother]))
      fun other hother => hsizes other (by simp [hother])
    rw [decodeFields_cons]
    refine (Codec.blamesBytes_locate _ _ _ _).bind fun position _ => ?_
    refine (FieldCodec.blamesBytes_decode hlt (hnested field (by simp)) _ _ _).bind ?_
    rintro ⟨value, span⟩ hvalue
    refine BlamesBytes.bind ?_ fun count _ => (hrest _ _).bind fun _ _ => blamesBytes_ok _
    dsimp only
    split
    · next hsize =>
      -- the value of a size field is an integer, since its codec reads one
      obtain ⟨type, hcodec, hinteger⟩ := hsizes field (by simp) hsize
      simp only [hcodec, decodeField, bind_eq_ok_iff, pure_eq_ok_iff, Prod.mk.injEq] at hvalue
      obtain ⟨s, hread, rfl, -⟩ := hvalue
      simp only [Codec.readScalar, bind_eq_ok_iff, pure_eq_ok_iff] at hread
      obtain ⟨_, -, raw, -, rfl⟩ := hread
      obtain ⟨i, hi⟩ := Scalar.toInt?_ofBytes hinteger raw
      exact Codec.blamesBytes_countOf _ hi
    · exact blamesBytes_ok _

/-- Reading a record fails where the bytes run out or a size field is negative, and for no other
reason. -/
theorem Layout.WellFormed.decodeFrom_blamesBytes {layout : Layout} (h : layout.WellFormed)
    (position : Nat) : BlamesBytes buf (layout.decodeFrom buf position) := by
  induction h generalizing position with
  | @intro layout coherent _ ih =>
    have hsizes := coherent.integer_of_mem
    obtain ⟨name, start, fields, stop, buildOrder⟩ := layout
    rw [decodeFrom]
    refine (blamesBytes_decodeFields hlt (fun field hfield inner hinner =>
      ih inner (mem_nested hfield hinner)) hsizes position [] []).bind fun _ _ => ?_
    exact (Codec.blamesBytes_locate _ _ _ _).bind fun _ _ => blamesBytes_ok _

/-! ## Measuring -/

theorem Layout.blamesBytes_measureField {codec : FieldCodec Layout} {slot : Slot}
    (hnested : ∀ inner ∈ codec.nested, ∀ position, BlamesBytes buf (inner.measure buf position))
    (hsize : slot.isSizeField = true → ∃ type, codec = .scalar type ∧ type.isInteger = true)
    (position : Nat) (counts : List Nat) :
    BlamesBytes buf (measureField codec slot buf position counts) := by
  cases codec with
  | scalar type =>
    rw [measureField_scalar]
    split
    · next hcounts =>
      split
      · exact blamesBytes_ok _
      · refine (Codec.blamesBytes_readScalar hlt type).bind fun s hread => ?_
        obtain ⟨type, hcodec, hinteger⟩ := hsize hcounts
        cases hcodec
        simp only [Codec.readScalar, bind_eq_ok_iff, pure_eq_ok_iff] at hread
        obtain ⟨_, -, raw, -, rfl⟩ := hread
        obtain ⟨i, hi⟩ := Scalar.toInt?_ofBytes hinteger raw
        exact (Codec.blamesBytes_countOf _ hi).bind fun count _ => blamesBytes_ok _
    · exact blamesBytes_ok _
  | text width =>
    cases width with
    | fixed capacity => exact blamesBytes_ok _
    | counted source =>
      rw [measureField]
      exact (Codec.blamesBytes_scaled _ _ _).bind fun span _ => blamesBytes_ok _
  | array element length => exact blamesBytes_ok _
  | list element source =>
    rw [measureField]
    exact (Codec.blamesBytes_scaled _ _ _).bind fun span _ => blamesBytes_ok _
  | struct layout =>
    rw [measureField]
    split
    · refine (hnested layout (by simp [FieldCodec.nested]) position).bind fun found hfound => ?_
      cases found with
      | none => exact blamesBytes_ok _
      | some length =>
        refine (Codec.blamesBytes_spanOf (staticSize_le_of_measure hfound)).bind fun span _ => ?_
        exact blamesBytes_ok _
    · exact blamesBytes_ok _

theorem Layout.blamesBytes_measureFields {fields : List (FieldLayout Layout)}
    (hnested : ∀ field ∈ fields, ∀ inner ∈ field.codec.nested, ∀ position,
      BlamesBytes buf (inner.measure buf position))
    (hsizes : ∀ field ∈ fields, field.isSizeField = true →
      ∃ type, field.codec = .scalar type ∧ type.isInteger = true)
    (base : Nat) (spans counts : List Nat) :
    BlamesBytes buf (measureFields fields buf base spans counts) := by
  induction fields generalizing spans counts with
  | nil => exact blamesBytes_ok _
  | cons field fields ih =>
    have hrest := ih (fun other hother => hnested other (by simp [hother]))
      fun other hother => hsizes other (by simp [hother])
    rw [measureFields_cons]
    refine (Codec.blamesBytes_locate _ _ _ _).bind fun position _ => ?_
    refine (blamesBytes_measureField hlt (hnested field (by simp)) (hsizes field (by simp)) _ _).bind
      fun found _ => ?_
    cases found with
    | none => exact blamesBytes_ok _
    | some pair => exact hrest _ _

/-- Measuring a record fails where bytes run out or a size field is negative, and for no other
reason. -/
theorem Layout.WellFormed.measure_blamesBytes {layout : Layout} (h : layout.WellFormed)
    (position : Nat) : BlamesBytes buf (layout.measure buf position) := by
  induction h generalizing position with
  | @intro layout coherent _ ih =>
    rw [measure_eq]
    refine (blamesBytes_measureFields hlt (fun field hfield inner hinner =>
      ih inner (mem_nested hfield hinner)) coherent.integer_of_mem position [] []).bind
        fun found _ => ?_
    cases found with
    | none => exact blamesBytes_ok _
    | some spans => exact (Codec.blamesBytes_locate _ _ _ _).bind fun _ _ => blamesBytes_ok _

end

end PacketWire
