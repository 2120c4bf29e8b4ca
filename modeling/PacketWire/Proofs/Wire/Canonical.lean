import PacketWire.Proofs.Wire.Local
import PacketWire.Proofs.Wire.Normal

/-!
# Canonical bytes

A reader takes more than a writer gives: any byte but zero for a true boolean, anything behind the
first zero of a text, bytes that are no text. What is left when a reader is strict about these are
the canonical bytes. They lose nothing in being read: the record that is read from them has them as
its serialisation, and a serialisation is canonical.

* `Primitive.admits`, `Bytes.isPaddedText`, `Bytes.isEndedText`: what is asked of the bytes of one
  field, wherever in the record it stands.
* `Layout.WellFormed.restores`: canonical bytes are the serialisation of what is read from them.
* `Layout.WellFormed.canonises`: a serialisation is canonical.
-/

namespace PacketWire

/-! ## Canonical fields -/

/-- The bytes of booleans are zero or one; every other scalar may have any bytes. -/
def Primitive.admits (type : Primitive) (raw : Bytes) : Bool := type != .bool || raw.all (· ≤ 1)

/-- An ASCII text, and behind it nothing but zeros. -/
def Bytes.isPaddedText (raw : Bytes) : Bool :=
  (raw.takeWhile (· != 0)).all (· < 0x80) && (raw.dropWhile (· != 0)).all (· == 0)

/-- An ASCII text of so many bytes, none of them zero, and a zero behind it. -/
def Bytes.isEndedText (count : Nat) (raw : Bytes) : Bool :=
  (raw.take count).all (fun b => b != 0 && b < 0x80) && raw.drop count == [0]

mutual
/-- Whether what a layout reads off the front of the bytes is canonical. -/
def Layout.isCanonical : Layout → Bytes → Bool
  | ⟨_, start, fields, _, _⟩, bytes => canonicalFields fields [] (bytes.drop start)

/-- The same of a list of fields, given the counts of those before them. Each field is looked at
where the reader gets to it. -/
def canonicalFields : List (FieldLayout Layout) → List Nat → Bytes → Bool
  | [], _, _ => true
  | ⟨slot, codec⟩ :: rest, counts, bytes =>
    codec.isCanonical counts bytes &&
      (codec.scan? counts bytes).all fun (value, behind) =>
        (if slot.isSizeField then value.count? else some 0).all fun count =>
          canonicalFields rest (counts ++ [count]) behind

/-- The same of one field. -/
def FieldCodec.isCanonical : FieldCodec Layout → List Nat → Bytes → Bool
  | .scalar type, _, bytes => type.admits (bytes.take type.width)
  | .text (.fixed width), _, bytes => Bytes.isPaddedText (bytes.take width)
  | .text (.counted source), counts, bytes =>
    let count := counts.getD source 0
    Bytes.isEndedText count (bytes.take (count + 1))
  | .array element length, _, bytes => element.isCanonical length bytes
  | .list element source, counts, bytes => element.isCanonical (counts.getD source 0) bytes
  | .struct layout, _, bytes => layout.isCanonical bytes

/-- The same of the elements of an array. -/
def ElementCodec.isCanonical : ElementCodec Layout → Nat → Bytes → Bool
  | .scalar type, count, bytes => type.admits (bytes.take (count * type.width))
  | .struct layout, count, bytes =>
    (List.range count).all fun k => layout.isCanonical (bytes.drop (k * layout.staticSize))
end

theorem Layout.isCanonical_eq (layout : Layout) (bytes : Bytes) :
    layout.isCanonical bytes = canonicalFields layout.fields [] (bytes.drop layout.start) := by
  cases layout
  rw [Layout.isCanonical]

theorem canonicalFields_cons (field : FieldLayout Layout) (rest : List (FieldLayout Layout))
    (counts : List Nat) (bytes : Bytes) :
    canonicalFields (field :: rest) counts bytes =
      (field.codec.isCanonical counts bytes &&
        (field.codec.scan? counts bytes).all fun (value, behind) =>
          (if field.isSizeField then value.count? else some 0).all fun count =>
            canonicalFields rest (counts ++ [count]) behind) := by
  obtain ⟨slot, codec⟩ := field
  rw [canonicalFields]

/-! ## Scalars -/

theorem Primitive.admits_of_ne {type : Primitive} (h : type ≠ .bool) (raw : Bytes) :
    type.admits raw = true := by
  rw [admits, Bool.or_eq_true, bne_iff_ne]
  exact .inl h

/-- Bytes that a type admits are those of the scalar that is read from them. -/
theorem Scalar.toBytes_ofBytes {type : Primitive} {raw : Bytes} (hlength : raw.length = type.width)
    (hadmits : type.admits raw = true) : (Scalar.ofBytes type raw).toBytes = raw := by
  have hback : Bytes.littleEndian type.width (Bytes.ofLittleEndian raw) = raw :=
    hlength ▸ Bytes.littleEndian_ofLittleEndian raw
  by_cases hbool : type = .bool
  · subst hbool
    obtain ⟨b, rfl⟩ := List.length_eq_one_iff.mp hlength
    have hb : b.toNat ≤ 1 := by
      simpa [Primitive.admits, UInt8.le_iff_toNat_le] using hadmits
    have hcases : b = 0 ∨ b = 1 := by
      rcases Nat.le_one_iff_eq_zero_or_eq_one.mp hb with h | h
      · exact .inl (UInt8.toNat_inj.mp h)
      · exact .inr (UInt8.toNat_inj.mp h)
    rcases hcases with rfl | rfl <;> rfl
  · have hlt : Bytes.ofLittleEndian raw < 2 ^ type.bitWidth := by
      have hrange := Bytes.ofLittleEndian_lt raw
      rw [hlength, Bytes.range, Nat.one_shiftLeft] at hrange
      cases type <;> first | exact hrange | exact absurd rfl hbool
    have hofBytes : Scalar.ofBytes type raw = .ofNat type (Bytes.ofLittleEndian raw) := by
      cases type <;> first | rfl | exact absurd rfl hbool
    rw [hofBytes, Scalar.toBytes, Scalar.ofNat, BitVec.toNat_ofNat, Nat.mod_eq_of_lt hlt]
    exact hback

/-- The bytes of a scalar are admitted. -/
theorem Primitive.admits_scalarBytes? {type : Primitive} {value : Value} {raw : Bytes}
    (h : value.scalarBytes? type = some raw) : type.admits raw = true := by
  by_cases hbool : type = .bool
  · subst hbool
    cases value with
    | scalar s =>
      obtain ⟨type, bits⟩ := s
      simp only [Value.scalarBytes?, Option.ite_none_right_eq_some, Option.some.injEq] at h
      obtain ⟨rfl, rfl⟩ := h
      have hlt : bits.toNat < 2 := bits.isLt
      have hcases : bits.toNat = 0 ∨ bits.toNat = 1 := by omega
      rcases hcases with h | h <;> rw [h] <;> rfl
    | _ => cases h
  · exact admits_of_ne hbool raw

namespace Scan

theorem take_eq_some_iff {n : Nat} {bytes raw rest : Bytes} :
    take n bytes = some (raw, rest) ↔ raw.length = n ∧ bytes = raw ++ rest := by
  constructor
  · intro h
    unfold take at h
    split at h
    · next hle =>
      cases h
      exact ⟨by rw [List.length_take, Nat.min_eq_left hle], (List.take_append_drop n bytes).symm⟩
    · cases h
  · rintro ⟨hlength, rfl⟩
    exact take_append hlength rest

/-- An admitted scalar is the serialisation of what is read. -/
theorem scalarBytes?_scalar {type : Primitive} {bytes rest : Bytes} {s : Scalar}
    (h : scalar type bytes = some (s, rest))
    (hadmits : type.admits (bytes.take type.width) = true) :
    ∃ raw, raw.length = type.width ∧ bytes = raw ++ rest ∧ s.type = type ∧
      (Value.scalar s).scalarBytes? type = some raw := by
  obtain ⟨⟨raw, behind⟩, htake, hpair⟩ := Option.map_eq_some_iff.mp h
  cases hpair
  obtain ⟨hlength, rfl⟩ := take_eq_some_iff.mp htake
  rw [← hlength, List.take_left] at hadmits
  have hback := Scalar.toBytes_ofBytes hlength hadmits
  have htype := Scalar.type_ofBytes type raw
  refine ⟨raw, hlength, rfl, htype, ?_⟩
  generalize Scalar.ofBytes type raw = s at hback htype ⊢
  subst htype
  rw [Value.scalarBytes?, if_pos rfl]
  exact congrArg some hback

/-- Items that stand one stride apart, each of which is the serialisation of what is read. -/
theorem concat?_times {α β : Type} {read : Bytes → Option (β × Bytes)} (write : α → Option Bytes)
    (wrap : β → α) (stride : Nat) {n : Nat} {bytes rest : Bytes} {items : List β}
    (h : times read n bytes = some (items, rest))
    (hread : ∀ k < n, ∀ b behind, read (bytes.drop (k * stride)) = some (b, behind) →
      ∃ raw, raw.length = stride ∧ bytes.drop (k * stride) = raw ++ behind ∧
        write (wrap b) = some raw) :
    ∃ out, bytes = out ++ rest ∧ concat? write (items.map wrap) = some out ∧ items.length = n := by
  induction n generalizing bytes items with
  | zero =>
    cases h
    exact ⟨[], rfl, rfl, rfl⟩
  | succ n ih =>
    obtain ⟨⟨b, behind⟩, hb, hmap⟩ := Option.bind_eq_some_iff.mp h
    obtain ⟨⟨later, last⟩, htimes, hpair⟩ := Option.map_eq_some_iff.mp hmap
    cases hpair
    have hfirst := hread 0 (Nat.zero_lt_succ n) b behind
    rw [Nat.zero_mul, List.drop_zero] at hfirst
    obtain ⟨raw, hlength, rfl, hwrite⟩ := hfirst hb
    obtain ⟨out, rfl, hconcat, hcount⟩ := ih htimes fun k hk c next hc => by
      have hmoved : (raw ++ behind).drop ((k + 1) * stride) = behind.drop (k * stride) := by
        rw [Nat.succ_mul, Nat.add_comm, ← List.drop_drop, ← hlength, List.drop_left]
      have hnext := hread (k + 1) (Nat.succ_lt_succ hk) c next
      rw [hmoved] at hnext
      exact hnext hc
    refine ⟨raw ++ out, (List.append_assoc _ _ _).symm, ?_, by rw [List.length_cons, hcount]⟩
    rw [List.map_cons, concat?, hwrite, hconcat]
    rfl

end Scan

/-! ## Texts -/

/-- A NUL-free ASCII text is the serialisation of what is read from it. -/
theorem Value.asciiBytes?_decodeLossy {raw : Bytes} (h : ∀ b ∈ raw, b ≠ 0 ∧ b.toNat < 0x80) :
    Value.asciiBytes? (Utf8.decodeLossy raw) = some raw := by
  have hchar : ∀ b ∈ raw, (Char.ofNat b.toNat).toNat = b.toNat := by
    intro b hb
    have hvalid : b.toNat.isValidChar := .inl (Nat.lt_trans (h b hb).2 (by decide))
    rw [Char.ofNat, dif_pos hvalid]
    rfl
  rw [Utf8.decodeLossy_ascii raw fun b hb => (h b hb).2, Value.asciiBytes?_eq_some_iff,
    String.toList_ofList, List.map_map]
  constructor
  · intro c hc
    obtain ⟨b, hb, rfl⟩ := List.mem_map.mp hc
    rw [hchar b hb]
    refine ⟨Nat.pos_of_ne_zero fun hzero => (h b hb).1 (UInt8.toNat_inj.mp hzero), (h b hb).2⟩
  · refine (List.map_id raw).symm.trans (List.map_congr_left fun b hb => ?_)
    rw [Function.comp_apply, hchar b hb, UInt8.ofNat_toNat, id]

/-- A canonical text is the serialisation of what is read. -/
theorem TextWidth.bytes?_scan? {width : TextWidth} {counts : List Nat} {bytes rest : Bytes}
    {value : Value} (h : (FieldCodec.text width).scan? counts bytes = some (value, rest))
    (hcanonical : (FieldCodec.text width).isCanonical counts bytes = true) :
    ∃ s raw, value = .text s ∧ bytes = raw ++ rest ∧ width.bytes? s = some raw ∧
      ∀ i, width = .counted i → Utf8.length s = counts.getD i 0 := by
  cases width with
  | fixed width =>
    rw [FieldCodec.scan?] at h
    obtain ⟨⟨raw, behind⟩, htake, hpair⟩ := Option.map_eq_some_iff.mp h
    cases hpair
    obtain ⟨rfl, rfl⟩ := Scan.take_eq_some_iff.mp htake
    rw [FieldCodec.isCanonical, List.take_left, Bytes.isPaddedText, Bool.and_eq_true,
      List.all_eq_true, List.all_eq_true] at hcanonical
    obtain ⟨htext, hzeros⟩ := hcanonical
    have hascii : ∀ b ∈ raw.takeWhile (· != 0), b ≠ 0 ∧ b.toNat < 0x80 := fun b hb =>
      ⟨bne_iff_ne.mp (List.all_eq_true.mp List.all_takeWhile b hb),
        UInt8.lt_iff_toNat_lt.mp (decide_eq_true_iff.mp (htext b hb))⟩
    have hlength : (raw.takeWhile (· != 0)).length + (raw.dropWhile (· != 0)).length =
        raw.length := by
      rw [← List.length_append, List.takeWhile_append_dropWhile]
    have hpadding : raw.dropWhile (· != 0) =
        List.replicate (raw.length - (raw.takeWhile (· != 0)).length) 0 :=
      List.eq_replicate_iff.mpr ⟨by omega, fun b hb => beq_iff_eq.mp (hzeros b hb)⟩
    refine ⟨_, raw, rfl, rfl, ?_, fun i hi => by cases hi⟩
    rw [List.take_length, TextWidth.bytes?, Value.asciiBytes?_decodeLossy hascii, Option.bind_some]
    dsimp only
    rw [if_pos (by omega), ← hpadding, List.takeWhile_append_dropWhile]
  | counted source =>
    rw [FieldCodec.scan?] at h
    generalize hcount : counts.getD source 0 = count at h
    obtain ⟨⟨raw, behind⟩, htake, hpair⟩ := Option.map_eq_some_iff.mp h
    cases hpair
    obtain ⟨hlength, rfl⟩ := Scan.take_eq_some_iff.mp htake
    rw [FieldCodec.isCanonical, hcount, ← hlength, List.take_left, Bytes.isEndedText,
      Bool.and_eq_true, List.all_eq_true, beq_iff_eq] at hcanonical
    obtain ⟨htext, hend⟩ := hcanonical
    have hascii : ∀ b ∈ raw.take count, b ≠ 0 ∧ b.toNat < 0x80 := fun b hb => by
      simpa [UInt8.lt_iff_toNat_lt] using htext b hb
    have hbytes := Value.asciiBytes?_decodeLossy hascii
    have hwhole := Value.takeWhile_asciiBytes? hbytes 0
    rw [List.replicate_zero, List.append_nil] at hwhole
    refine ⟨_, raw, rfl, rfl, ?_, fun i hi => ?_⟩
    · rw [hwhole, TextWidth.bytes?, hbytes, Option.bind_some]
      dsimp only
      rw [← hend, List.take_append_drop]
    · cases hi
      rw [hwhole, ← Value.length_asciiBytes? hbytes, List.length_take, hcount]
      omega

/-! ## Elements and fields -/

/-- Canonical bytes are the serialisation of what a layout reads from them. -/
def Layout.Restores (layout : Layout) : Prop :=
  ∀ bytes record rest, layout.scan? bytes = some (record, rest) →
    layout.isCanonical bytes = true →
    ∃ head body, head.length = layout.start ∧ bytes = head ++ (body ++ rest) ∧
      layout.serial? record = some body

/-- Booleans that are admitted together are admitted one by one. -/
theorem Primitive.admits_slice {type : Primitive} {count : Nat} {bytes : Bytes}
    (h : type.admits (bytes.take (count * type.width)) = true) {k : Nat} (hk : k < count) :
    type.admits ((bytes.drop (k * type.width)).take type.width) = true := by
  unfold admits at h ⊢
  rw [Bool.or_eq_true] at h ⊢
  refine h.imp_right fun hall => ?_
  rw [List.all_eq_true] at hall ⊢
  intro b hb
  refine hall b ?_
  have hstop : k * type.width + type.width ≤ count * type.width := by
    rw [← Nat.succ_mul]
    exact Nat.mul_le_mul_right _ hk
  rw [List.take_drop] at hb
  exact List.take_subset_take_left bytes hstop (List.mem_of_mem_drop hb)

theorem ElementCodec.serial?_scan? {element : ElementCodec Layout} (hstrided : element.Strided)
    (hnested : ∀ inner ∈ element.nested,
      inner.start = 0 ∧ inner.SerialSized ∧ inner.Restores)
    {count : Nat} {bytes rest : Bytes} {value : Value}
    (h : element.scan? count bytes = some (value, rest))
    (hcanonical : element.isCanonical count bytes = true) :
    ∃ raw, bytes = raw ++ rest ∧ element.serial? value = some raw ∧ value.length? = some count := by
  cases element with
  | scalar type =>
    rw [ElementCodec.isCanonical] at hcanonical
    by_cases hbyte : type = .u8
    · subst hbyte
      rw [ElementCodec.scan?] at h
      obtain ⟨⟨raw, behind⟩, htake, hpair⟩ := Option.map_eq_some_iff.mp h
      cases hpair
      obtain ⟨rfl, rfl⟩ := Scan.take_eq_some_iff.mp htake
      exact ⟨raw, rfl, rfl, rfl⟩
    · rw [ElementCodec.scan?.eq_2 _ _ _ hbyte] at h
      obtain ⟨⟨items, behind⟩, htimes, hpair⟩ := Option.map_eq_some_iff.mp h
      cases hpair
      obtain ⟨out, rfl, hconcat, hlength⟩ := Scan.concat?_times (Value.scalarBytes? type)
        Value.scalar type.width htimes fun k hk s behind hs => by
          obtain ⟨raw, hraw, hbytes, -, hserial⟩ :=
            Scan.scalarBytes?_scalar hs (Primitive.admits_slice hcanonical hk)
          exact ⟨raw, hraw, hbytes, hserial⟩
      refine ⟨out, rfl, ?_, by rw [Value.length?, List.length_map, hlength]⟩
      cases type <;> exact hconcat
  | struct layout =>
    obtain ⟨hstart, hsized, hrestores⟩ := hnested layout (by simp [ElementCodec.nested])
    rw [ElementCodec.isCanonical, List.all_eq_true] at hcanonical
    rw [ElementCodec.scan?] at h
    obtain ⟨⟨records, behind⟩, htimes, hpair⟩ := Option.map_eq_some_iff.mp h
    cases hpair
    obtain ⟨out, rfl, hconcat, hlength⟩ := Scan.concat?_times
      (fun item : Value => item.record?.bind fun record => layout.serial? record)
      Value.record layout.staticSize htimes fun k hk record behind hrecord => by
        obtain ⟨head, body, hhead, hbytes, hserial⟩ :=
          hrestores _ record behind hrecord (hcanonical k (List.mem_range.mpr hk))
        rw [hstart, List.length_eq_zero_iff] at hhead
        subst hhead
        have hlength := (hsized record body hserial).2 hstrided.1
        rw [hstart, Nat.zero_add] at hlength
        exact ⟨body, hlength, hbytes, hserial⟩
    refine ⟨out, rfl, ?_, by rw [Value.length?, List.length_map, hlength]⟩
    rw [ElementCodec.serial?]
    exact hconcat

/-- A canonical field is the serialisation of what is read, and a field of variable length has the
length it was read with. -/
theorem FieldCodec.serial?_scan? {codec : FieldCodec Layout} (hsized : codec.Sized)
    (hnested : ∀ inner ∈ codec.nested, inner.start = 0 ∧ inner.SerialSized ∧ inner.Restores)
    {counts : List Nat} {bytes rest : Bytes} {value : Value}
    (h : codec.scan? counts bytes = some (value, rest))
    (hcanonical : codec.isCanonical counts bytes = true) :
    ∃ raw, bytes = raw ++ rest ∧ codec.serial? value = some raw ∧
      ∀ i, codec.source? = some i → value.length? = some (counts.getD i 0) := by
  cases codec with
  | scalar type =>
    rw [FieldCodec.scan?] at h
    rw [FieldCodec.isCanonical] at hcanonical
    obtain ⟨⟨s, behind⟩, hs, hpair⟩ := Option.map_eq_some_iff.mp h
    cases hpair
    obtain ⟨raw, -, hbytes, -, hserial⟩ := Scan.scalarBytes?_scalar hs hcanonical
    exact ⟨raw, hbytes, hserial, fun i hi => by cases hi⟩
  | text width =>
    obtain ⟨s, raw, rfl, hbytes, hserial, hlength⟩ := TextWidth.bytes?_scan? h hcanonical
    refine ⟨raw, hbytes, hserial, fun i hi => ?_⟩
    cases width with
    | fixed width => cases hi
    | counted source =>
      cases hi
      exact congrArg some (hlength _ rfl)
  | array element length =>
    rw [FieldCodec.scan?] at h
    rw [FieldCodec.isCanonical] at hcanonical
    obtain ⟨raw, hbytes, hserial, hlength⟩ :=
      element.serial?_scan? hsized.1 hnested h hcanonical
    refine ⟨raw, hbytes, ?_, fun i hi => by cases hi⟩
    rw [FieldCodec.serial?, if_pos hlength, hserial]
  | list element source =>
    rw [FieldCodec.scan?] at h
    rw [FieldCodec.isCanonical] at hcanonical
    obtain ⟨raw, hbytes, hserial, hlength⟩ := element.serial?_scan? hsized hnested h hcanonical
    refine ⟨raw, hbytes, hserial, fun i hi => ?_⟩
    cases hi
    exact hlength
  | struct layout =>
    obtain ⟨hstart, -, hrestores⟩ := hnested layout (by simp [FieldCodec.nested])
    rw [FieldCodec.scan?] at h
    rw [FieldCodec.isCanonical] at hcanonical
    obtain ⟨⟨record, behind⟩, hrecord, hpair⟩ := Option.map_eq_some_iff.mp h
    cases hpair
    obtain ⟨head, body, hhead, hbytes, hserial⟩ := hrestores bytes record rest hrecord hcanonical
    rw [hstart, List.length_eq_zero_iff] at hhead
    subst hhead
    refine ⟨body, hbytes, hserial, fun i hi => ?_⟩
    rw [FieldCodec.source?_struct] at hi
    cases hi

/-- A size field is the serialisation of the count that is read. -/
theorem FieldCodec.countBytes?_scan? {type : Primitive} (hinteger : type.isInteger = true)
    {counts : List Nat} {bytes rest : Bytes} {value : Value} {count : Nat}
    (h : (FieldCodec.scalar type).scan? counts bytes = some (value, rest))
    (hcount : value.count? = some count) :
    ∃ raw, bytes = raw ++ rest ∧ (FieldCodec.scalar type).countBytes? count = some raw := by
  rw [FieldCodec.scan?] at h
  obtain ⟨⟨s, behind⟩, hs, hpair⟩ := Option.map_eq_some_iff.mp h
  cases hpair
  have hbool : type ≠ .bool := by
    rintro rfl
    cases hinteger
  obtain ⟨raw, -, hbytes, htype, hserial⟩ :=
    Scan.scalarBytes?_scalar hs (Primitive.admits_of_ne hbool _)
  refine ⟨raw, hbytes, ?_⟩
  obtain ⟨i, hi, hnat⟩ := Option.bind_eq_some_iff.mp hcount
  have hi : s.toInt? = some i := hi
  have hi : s.toInt? = some (count : Int) := by
    split at hnat
    · cases hnat
    · next hneg =>
      cases hnat
      rw [hi, Int.toNat_of_nonneg (Int.not_lt.mp hneg)]
  obtain ⟨hbits, hlt⟩ := Scalar.lt_countLimit hi
  subst htype
  rw [Value.scalarBytes?, if_pos rfl, hbits] at hserial
  rw [FieldCodec.countBytes?, if_pos hlt, hserial]

/-! ## All fields -/

/-- What a reader makes of one field: the value, the count that it is for later fields, and the
bytes it takes. -/
structure Part where
  value : Value
  count : Nat
  bytes : Bytes

/-- The bytes of a part are what a field is written as, under the counts of all fields. -/
structure FieldLayout.WrittenAs (field : FieldLayout Layout) (counts : List Nat)
    (part : Part) : Prop where
  carries : field.isSizeField = true → field.codec.countBytes? part.count = some part.bytes
  holds : ¬field.isSizeField = true → field.codec.serial? part.value = some part.bytes
  measures : ∀ i, field.codec.source? = some i → part.value.length? = some (counts.getD i 0)

namespace Layout

variable {layout : Layout}

/-- One field more: it is the serialisation of what is read, whatever counts are read later. -/
theorem writtenAs_of_scan? (coherent : layout.Coherent) {counts : List Nat}
    {field : FieldLayout Layout}
    (hfield : layout.fields[counts.length]? = some field)
    (hnested : ∀ inner ∈ layout.nested, inner.SerialSized ∧ inner.Restores) {bytes rest : Bytes}
    {value : Value} {count : Nat} (h : field.codec.scan? counts bytes = some (value, rest))
    (hcanonical : field.codec.isCanonical counts bytes = true)
    (hcount : (if field.isSizeField then value.count? else some 0) = some count) :
    ∃ raw, bytes = raw ++ rest ∧
      ∀ later, field.WrittenAs (counts ++ later) ⟨value, count, raw⟩ := by
  have hmem := List.mem_of_getElem? hfield
  have hinner : ∀ inner ∈ field.codec.nested,
      inner.start = 0 ∧ inner.SerialSized ∧ inner.Restores := fun inner hinner =>
    have hin := mem_nested hmem hinner
    ⟨coherent.starts inner hin, hnested inner hin⟩
  obtain ⟨raw, rfl, hserial, hlength⟩ :=
    field.codec.serial?_scan? (coherent.sized field hmem) hinner h hcanonical
  refine ⟨raw, rfl, fun later => ⟨fun hsize => ?_, fun _ => hserial, fun i hi => ?_⟩⟩
  · obtain ⟨type, hcodec, hinteger⟩ := coherent.integer_of_mem field hmem hsize
    rw [if_pos hsize] at hcount
    rw [hcodec] at h ⊢
    obtain ⟨found, hbytes, hfound⟩ := FieldCodec.countBytes?_scan? hinteger h hcount
    rwa [List.append_cancel_right hbytes]
  · -- the source stands before the field, so its count is among those already read
    have hlt := (coherent.source_isSizeField hfield hi).1
    rw [hlength i hi, List.getD_eq_getElem?_getD, List.getD_eq_getElem?_getD,
      List.getElem?_append_left hlt]

/-- All fields from one on. -/
theorem parts_of_scanFields? (coherent : layout.Coherent)
    (hnested : ∀ inner ∈ layout.nested, inner.SerialSized ∧ inner.Restores)
    {done fields : List (FieldLayout Layout)} (hfields : layout.fields = done ++ fields)
    {counts : List Nat} (hdone : counts.length = done.length) {bytes rest : Bytes}
    {values : List Value} (h : scanFields? fields counts bytes = some (values, rest))
    (hcanonical : canonicalFields fields counts bytes = true) :
    ∃ parts : List Part, parts.length = fields.length ∧ values = parts.map (·.value) ∧
      bytes = parts.flatMap (·.bytes) ++ rest ∧
      ∀ (i : Nat) (field : FieldLayout Layout) (part : Part), fields[i]? = some field →
        parts[i]? = some part → field.WrittenAs (counts ++ parts.map (·.count)) part := by
  induction fields generalizing done counts bytes values with
  | nil =>
    rw [scanFields?] at h
    cases h
    exact ⟨[], rfl, rfl, rfl, fun i field part hi => by cases hi⟩
  | cons field fields ih =>
    rw [scanFields?_cons] at h
    obtain ⟨⟨value, behind⟩, hvalue, h⟩ := Option.bind_eq_some_iff.mp h
    obtain ⟨count, hcount, h⟩ := Option.bind_eq_some_iff.mp h
    obtain ⟨⟨later, last⟩, hlater, hpair⟩ := Option.map_eq_some_iff.mp h
    cases hpair
    simp only [canonicalFields_cons, hvalue, hcount, Option.all_some, Bool.and_eq_true]
      at hcanonical
    obtain ⟨hfirst, hothers⟩ := hcanonical
    have hfield : layout.fields[counts.length]? = some field := by simp [hfields, hdone]
    obtain ⟨raw, rfl, hwritten⟩ := writtenAs_of_scan? coherent hfield hnested hvalue hfirst hcount
    have hsplit : layout.fields = (done ++ [field]) ++ fields := by simp [hfields]
    obtain ⟨parts, hlength, rfl, rfl, hparts⟩ := ih hsplit (by simp [hdone]) hlater hothers
    refine ⟨⟨value, count, raw⟩ :: parts, by simp [hlength], rfl, by simp, ?_⟩
    intro i other part hother hpart
    cases i with
    | zero =>
      cases hother
      cases hpart
      exact hwritten _
    | succ i =>
      have hlast := hparts i other part hother hpart
      rwa [List.append_assoc] at hlast

/-- Parts that are what the fields are written as make up the serialisation. -/
theorem serialFields?_of_parts {fields : List (FieldLayout Layout)} {names : List String}
    {record : Record} {parts : List Part} (hlength : parts.length = fields.length)
    (h : ∀ (i : Nat) (field : FieldLayout Layout) (part : Part), fields[i]? = some field →
      parts[i]? = some part → field.bytes? names record = some part.bytes) :
    serialFields? fields names record = some (parts.flatMap (·.bytes)) := by
  induction fields generalizing parts with
  | nil =>
    rw [List.length_eq_zero_iff.mp hlength]
    rfl
  | cons field fields ih =>
    obtain ⟨part, parts, rfl⟩ := List.exists_cons_of_length_eq_add_one hlength
    rw [serialFields?_cons, h 0 field part rfl rfl,
      ih (Nat.succ.inj hlength) fun i => h (i + 1)]
    rfl

/-- A field of the record that is read is written as its part. -/
theorem bytes?_of_writtenAs (coherent : layout.Coherent) {parts : List Part} {record : Record}
    (hparts : ∀ (i : Nat) (field : FieldLayout Layout) (part : Part),
      layout.fields[i]? = some field → parts[i]? = some part →
      field.WrittenAs (parts.map (·.count)) part)
    (hlength : parts.length = layout.fields.length)
    (hget : ∀ (i : Nat) (field : FieldLayout Layout) (part : Part),
      layout.fields[i]? = some field → parts[i]? = some part →
      record.get? field.name = some part.value)
    {i : Nat} {field : FieldLayout Layout} {part : Part} (hfield : layout.fields[i]? = some field)
    (hpart : parts[i]? = some part) :
    field.bytes? (layout.fields.map (·.name)) record = some part.bytes := by
  have hwritten := hparts i field part hfield hpart
  rw [FieldLayout.bytes?]
  by_cases hsize : field.isSizeField = true
  · have hcommon : record.commonLength? (layout.fields.map (·.name)) field.dependents =
        some part.count := by
      refine Record.commonLength?_eq_some_iff.mpr ⟨?_, fun j hj => ?_⟩
      · rwa [← List.isEmpty_eq_false_iff, ← Bool.not_eq_true']
      · obtain ⟨other, hother, hsource⟩ := (coherent.mem_dependents_iff hfield j).mp hj
        obtain ⟨found, hfound⟩ : ∃ found, parts[j]? = some found := by
          have hj := (List.getElem?_eq_some_iff.mp hother).1
          exact ⟨parts[j], List.getElem?_eq_getElem (hlength ▸ hj)⟩
        have hmeasure := (hparts j other found hother hfound).measures i hsource
        simp [Record.lengthAt?, hother, hget j other found hother hfound, hmeasure, hpart]
    rw [if_pos hsize, hcommon, Option.bind_some]
    exact hwritten.carries hsize
  · rw [if_neg hsize, hget i field part hfield hpart, Option.bind_some]
    exact hwritten.holds hsize

/-- Canonical bytes are the serialisation of what is read from them. -/
theorem WellFormed.restores {layout : Layout} (h : layout.WellFormed) : layout.Restores := by
  induction h with
  | @intro layout coherent hwell ih =>
    intro bytes record rest hscan hcanonical
    rw [scan?_eq] at hscan
    obtain ⟨⟨head, behind⟩, hhead, hscan⟩ := Option.bind_eq_some_iff.mp hscan
    obtain ⟨⟨values, last⟩, hvalues, hpair⟩ := Option.map_eq_some_iff.mp hscan
    cases hpair
    obtain ⟨hstart, rfl⟩ := Scan.take_eq_some_iff.mp hhead
    rw [isCanonical_eq, ← hstart, List.drop_left] at hcanonical
    obtain ⟨parts, hlength, rfl, rfl, hparts⟩ := parts_of_scanFields? coherent
      (fun inner hinner => ⟨(hwell inner hinner).length_serial, ih inner hinner⟩)
      (List.nil_append _).symm rfl hvalues hcanonical
    refine ⟨head, _, hstart, rfl, ?_⟩
    rw [serial?_eq]
    refine serialFields?_of_parts hlength fun i field part hfield hpart =>
      bytes?_of_writtenAs coherent hparts hlength
        (fun j other found hother hfound => ?_) hfield hpart
    refine Record.get?_arrange coherent.names (by rw [List.getElem?_map, hother]; rfl)
      (by rw [List.getElem?_map, hfound]; rfl) ?_
    rw [coherent.order.mem_iff, List.mem_range]
    exact (List.getElem?_eq_some_iff.mp hother).1

end Layout

/-! ## Serialisations are canonical -/

/-- A serialisation of a layout is canonical, whatever stands in front of it and behind. -/
def Layout.Canonises (layout : Layout) : Prop :=
  ∀ record body, layout.serial? record = some body → ∀ head rest, head.length = layout.start →
    layout.isCanonical (head ++ (body ++ rest)) = true

theorem Primitive.admits_append {type : Primitive} {front back : Bytes} :
    type.admits (front ++ back) = (type.admits front && type.admits back) := by
  unfold admits
  cases hne : type != .bool <;> simp

/-- The bytes of scalars one after another are admitted together. -/
theorem Primitive.admits_concat? {type : Primitive} {items : List Value} {out : Bytes}
    (h : concat? (Value.scalarBytes? type) items = some out) : type.admits out = true := by
  induction items generalizing out with
  | nil =>
    cases h
    simp [admits]
  | cons item items ih =>
    obtain ⟨raw, hraw, hrest⟩ := Option.bind_eq_some_iff.mp h
    obtain ⟨tail, htail, rfl⟩ := Option.map_eq_some_iff.mp hrest
    rw [admits_append, admits_scalarBytes? hraw, ih htail, Bool.and_self]

/-- What stands at a multiple of the stride in a concatenation of items of that length. -/
theorem drop_concat? {α : Type} {write : α → Option Bytes} {items : List α} {stride : Nat}
    (hwidth : ∀ a ∈ items, ∀ bytes, write a = some bytes → bytes.length = stride) {out : Bytes}
    (h : concat? write items = some out) {k : Nat} (hk : k < items.length) :
    ∃ a ∈ items, ∃ raw behind, write a = some raw ∧ out.drop (k * stride) = raw ++ behind := by
  induction items generalizing out k with
  | nil => cases hk
  | cons a items ih =>
    obtain ⟨raw, hraw, hrest⟩ := Option.bind_eq_some_iff.mp h
    obtain ⟨tail, htail, rfl⟩ := Option.map_eq_some_iff.mp hrest
    cases k with
    | zero => exact ⟨a, by simp, raw, tail, hraw, by rw [Nat.zero_mul, List.drop_zero]⟩
    | succ k =>
      obtain ⟨b, hb, found, behind, hfound, hdrop⟩ :=
        ih (fun b hb => hwidth b (by simp [hb])) htail (Nat.lt_of_succ_lt_succ hk)
      refine ⟨b, by simp [hb], found, behind, hfound, ?_⟩
      rw [Nat.succ_mul, Nat.add_comm, ← List.drop_drop, ← hwidth a (by simp) raw hraw,
        List.drop_left, hwidth a (by simp) raw hraw, hdrop]

theorem TextWidth.isCanonical_bytes? {width : TextWidth} {s : String} {bytes : Bytes}
    (h : width.bytes? s = some bytes) {counts : List Nat}
    (hcount : ∀ i, width = .counted i → counts.getD i 0 = Utf8.length s) (rest : Bytes) :
    FieldCodec.isCanonical (.text width) counts (bytes ++ rest) = true := by
  obtain ⟨ascii, hascii, hlength⟩ := TextWidth.length_bytes? h
  have htext : ∀ b ∈ ascii, b ≠ 0 ∧ b < 0x80 := fun b hb =>
    have hb := Value.toNat_of_mem_asciiBytes? hascii hb
    ⟨hb.1, UInt8.lt_iff_toNat_lt.mpr hb.2⟩
  simp only [TextWidth.bytes?, hascii, Option.bind_some] at h
  cases width with
  | fixed capacity =>
    dsimp only at h hlength
    rw [FieldCodec.isCanonical, ← hlength, List.take_left]
    split at h
    · cases h
      have hdropped : (ascii ++ List.replicate (capacity - ascii.length) 0).dropWhile (· != 0) =
          List.replicate (capacity - ascii.length) 0 := by
        have hsplit := List.takeWhile_append_dropWhile (p := (· != 0))
          (l := ascii ++ List.replicate (capacity - ascii.length) (0 : UInt8))
        rw [Value.takeWhile_asciiBytes? hascii] at hsplit
        exact List.append_cancel_left hsplit
      rw [Bytes.isPaddedText, Value.takeWhile_asciiBytes? hascii, hdropped, Bool.and_eq_true,
        List.all_eq_true, List.all_eq_true]
      exact ⟨fun b hb => decide_eq_true (htext b hb).2,
        fun b hb => beq_iff_eq.mpr (List.eq_of_mem_replicate hb)⟩
    · cases h
  | counted i =>
    cases h
    have hi : counts.getD i 0 = ascii.length := by
      rw [hcount i rfl, Value.length_asciiBytes? hascii]
    rw [FieldCodec.isCanonical]
    simp only [hi]
    have hend : (ascii ++ [0] ++ rest).take (ascii.length + 1) = ascii ++ [0] :=
      List.take_left' (by rw [List.length_append, List.length_singleton])
    rw [hend, Bytes.isEndedText, List.take_left, List.drop_left, Bool.and_eq_true,
      List.all_eq_true]
    exact ⟨fun b hb => by simpa using htext b hb, beq_self_eq_true _⟩

theorem ElementCodec.isCanonical_serial? {element : ElementCodec Layout}
    (hstrided : element.Strided)
    (hnested : ∀ inner ∈ element.nested,
      inner.start = 0 ∧ inner.SerialSized ∧ inner.Canonises) {value : Value} {bytes : Bytes}
    (h : element.serial? value = some bytes) {count : Nat} (hcount : value.length? = some count)
    (rest : Bytes) : element.isCanonical count (bytes ++ rest) = true := by
  have hlength : bytes.length = count * element.size := by
    obtain ⟨length, hlength, hbytes⟩ := element.length_serial? hstrided
      (fun inner hinner => ⟨(hnested inner hinner).1, (hnested inner hinner).2.1⟩) h
    rw [hcount] at hlength
    cases hlength
    exact hbytes
  cases element with
  | scalar type =>
    rw [ElementCodec.size] at hlength
    rw [ElementCodec.isCanonical, ← hlength, List.take_left]
    by_cases hbool : type = .bool
    · subst hbool
      cases value with
      | array items =>
        rw [ElementCodec.serial?] at h
        exact Primitive.admits_concat? h
      | _ => simp [ElementCodec.serial?] at h
    · exact Primitive.admits_of_ne hbool bytes
  | struct layout =>
    obtain ⟨hstart, hsized, hcanonises⟩ := hnested layout (by simp [ElementCodec.nested])
    cases value with
    | array items =>
      cases hcount
      rw [ElementCodec.serial?] at h
      rw [ElementCodec.isCanonical, List.all_eq_true]
      intro k hk
      have hstride : ∀ item ∈ items, ∀ raw,
          (item.record?.bind fun record => layout.serial? record) = some raw →
          raw.length = layout.staticSize := by
        intro item _ raw hraw
        obtain ⟨record, -, hserial⟩ := Option.bind_eq_some_iff.mp hraw
        have hexact := (hsized record raw hserial).2 hstrided.1
        rwa [hstart, Nat.zero_add] at hexact
      obtain ⟨item, -, raw, behind, hraw, hdrop⟩ :=
        drop_concat? hstride h (List.mem_range.mp hk)
      obtain ⟨record, -, hserial⟩ := Option.bind_eq_some_iff.mp hraw
      have hbefore : k * layout.staticSize ≤ bytes.length := by
        rw [hlength]
        exact Nat.mul_le_mul_right _ (Nat.le_of_lt (List.mem_range.mp hk))
      rw [List.drop_append_of_le_length hbefore, hdrop, List.append_assoc]
      exact hcanonises record raw hserial [] (behind ++ rest) hstart.symm
    | _ => simp [ElementCodec.serial?] at h

theorem FieldCodec.isCanonical_serial? {codec : FieldCodec Layout} (hsized : codec.Sized)
    (hnested : ∀ inner ∈ codec.nested,
      inner.start = 0 ∧ inner.SerialSized ∧ inner.Canonises) {value : Value} {bytes : Bytes}
    (h : codec.serial? value = some bytes) {counts : List Nat}
    (hcount : ∀ i, codec.source? = some i → value.length? = some (counts.getD i 0))
    (rest : Bytes) : codec.isCanonical counts (bytes ++ rest) = true := by
  cases codec with
  | scalar type =>
    rw [FieldCodec.serial?] at h
    rw [FieldCodec.isCanonical, ← Value.length_scalarBytes? h, List.take_left]
    exact Primitive.admits_scalarBytes? h
  | text width =>
    cases value with
    | text s =>
      rw [FieldCodec.serial?] at h
      refine TextWidth.isCanonical_bytes? h (fun i hi => ?_) rest
      subst hi
      exact (Option.some.inj (hcount i rfl)).symm
    | _ => simp [FieldCodec.serial?] at h
  | array element length =>
    rw [FieldCodec.serial?] at h
    split at h
    · next hlength =>
      rw [FieldCodec.isCanonical]
      exact element.isCanonical_serial? hsized.1 hnested h hlength rest
    · cases h
  | list element source =>
    rw [FieldCodec.serial?] at h
    rw [FieldCodec.isCanonical]
    exact element.isCanonical_serial? hsized hnested h (hcount source rfl) rest
  | struct layout =>
    obtain ⟨hstart, -, hcanonises⟩ := hnested layout (by simp [FieldCodec.nested])
    cases value with
    | record record =>
      rw [FieldCodec.serial?] at h
      rw [FieldCodec.isCanonical]
      exact hcanonises record bytes h [] rest hstart.symm
    | _ => simp [FieldCodec.serial?] at h

namespace Layout

variable {layout : Layout} {record : Record}

/-- The bytes of one field of a serialisation are canonical where the reader gets to them. -/
theorem Counted.isCanonical_bytes? (coherent : layout.Coherent) {counts : List Nat}
    (hcounted : layout.Counted record counts) {field : FieldLayout Layout}
    (hfield : layout.fields[counts.length]? = some field)
    (hnested : ∀ inner ∈ layout.nested, inner.SerialSized ∧ inner.Canonises) {bytes : Bytes}
    (hbytes : field.bytes? (layout.fields.map (·.name)) record = some bytes) (rest : Bytes) :
    field.codec.isCanonical counts (bytes ++ rest) = true := by
  have hmem := List.mem_of_getElem? hfield
  unfold FieldLayout.bytes? at hbytes
  by_cases hsize : field.isSizeField = true
  · -- a size field is an integer, and of those every byte is canonical
    obtain ⟨type, hcodec, hinteger⟩ := coherent.integer_of_mem field hmem hsize
    rw [hcodec, FieldCodec.isCanonical]
    refine Primitive.admits_of_ne ?_ _
    rintro rfl
    cases hinteger
  · rw [if_neg hsize] at hbytes
    obtain ⟨value, hvalue, hserial⟩ := Option.bind_eq_some_iff.mp hbytes
    exact field.codec.isCanonical_serial? (coherent.sized field hmem)
      (fun inner hinner =>
        have hin := mem_nested hmem hinner
        ⟨coherent.starts inner hin, hnested inner hin⟩) hserial
      (fun i hi => hcounted.length?_eq coherent hfield hvalue hi) rest

theorem canonicalFields_serialFields? (coherent : layout.Coherent)
    (hnested : ∀ inner ∈ layout.nested, inner.SerialSized ∧ inner.Canonises ∧ inner.Rereads)
    {done fields : List (FieldLayout Layout)} (hfields : layout.fields = done ++ fields)
    {counts : List Nat} (hdone : counts.length = done.length)
    (hcounted : layout.Counted record counts) {body : Bytes}
    (h : serialFields? fields (layout.fields.map (·.name)) record = some body) (rest : Bytes) :
    canonicalFields fields counts (body ++ rest) = true := by
  induction fields generalizing done counts body with
  | nil => rw [canonicalFields]
  | cons field fields ih =>
    simp only [serialFields?_cons, Option.bind_eq_some_iff, Option.map_eq_some_iff] at h
    obtain ⟨bytes, hbytes, tail, htail, rfl⟩ := h
    have hmem : field ∈ layout.fields := by simp [hfields]
    have hfield : layout.fields[counts.length]? = some field := by simp [hfields, hdone]
    obtain ⟨value, count, -, hscan, hcount, hnext⟩ :=
      hcounted.step coherent hfield (fun inner hinner =>
        have hin := mem_nested hmem hinner
        ⟨coherent.starts inner hin, (hnested inner hin).2.2⟩) hbytes (tail ++ rest)
    have hfirst := hcounted.isCanonical_bytes? coherent hfield
      (fun inner hinner => ⟨(hnested inner hinner).1, (hnested inner hinner).2.1⟩) hbytes
      (tail ++ rest)
    have hsplit : layout.fields = (done ++ [field]) ++ fields := by simp [hfields]
    have hothers := ih hsplit (by simp [hdone]) hnext htail
    rw [canonicalFields_cons, List.append_assoc, hfirst, hscan]
    simp only [Option.all_some, hcount, hothers, Bool.and_self]

/-- A serialisation is canonical. -/
theorem WellFormed.canonises {layout : Layout} (h : layout.WellFormed) : layout.Canonises := by
  induction h with
  | @intro layout coherent hwell ih =>
    intro record body hbody head rest hhead
    rw [serial?_eq] at hbody
    have hnone : layout.Counted record [] := fun i field hi => absurd hi (Nat.not_lt_zero i)
    rw [isCanonical_eq, ← hhead, List.drop_left]
    exact canonicalFields_serialFields? coherent
      (fun inner hinner =>
        ⟨(hwell inner hinner).length_serial, ih inner hinner, (hwell inner hinner).rereads⟩)
      (List.nil_append _).symm rfl hnone hbody rest

end Layout

end PacketWire
