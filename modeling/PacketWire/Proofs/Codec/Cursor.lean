import PacketWire.Proofs.Codec.Read

/-!
# A cursor over what was read by position

What is read at computed positions, a cursor reads that runs over the bytes from left to right: it
gets the same values and ends where the last field ends. Nothing is read beyond the buffer, however
large the counts in it are.

* `Scan.times_of_range`: elements read at multiples of a stride stand one after another.
* `Layout.WellFormed.scans`: what `decodeFrom` reads, the left-to-right reader reads.
-/

namespace PacketWire

/-! ## Slices -/

theorem Codec.slice_eq_ok_iff {buf raw : Bytes} {position width : Nat} :
    Codec.slice buf position width = .ok raw ↔ buf.slice? position width = some raw := by
  unfold Codec.slice
  cases buf.slice? position width <;> simp

theorem Bytes.slice?_eq_some_iff {buf raw : Bytes} {position width : Nat} :
    buf.slice? position width = some raw ↔
      position + width ≤ buf.length ∧ (buf.drop position).take width = raw := by
  rw [Bytes.slice?, Option.ite_none_right_eq_some, Option.some.injEq]

/-- Taking bytes that the buffer has off the front of what stands behind a position. -/
theorem Scan.take_drop_of_le {buf : Bytes} {position width : Nat}
    (h : position + width ≤ buf.length) :
    Scan.take width (buf.drop position) =
      some ((buf.drop position).take width, buf.drop (position + width)) := by
  have hle : width ≤ (buf.drop position).length := by
    rw [List.length_drop]
    omega
  rw [Scan.take, if_pos hle, List.drop_drop]

theorem Codec.scan_readScalar {type : Primitive} {buf : Bytes} {position : Nat} {s : Scalar}
    (h : Codec.readScalar type buf position = .ok s) :
    position + type.width ≤ buf.length ∧
      Scan.scalar type (buf.drop position) = some (s, buf.drop (position + type.width)) := by
  simp only [Codec.readScalar, bind_eq_ok_iff, pure_eq_ok_iff] at h
  obtain ⟨_, -, raw, hslice, rfl⟩ := h
  obtain ⟨hle, rfl⟩ := Bytes.slice?_eq_some_iff.mp (Codec.slice_eq_ok_iff.mp hslice)
  refine ⟨hle, ?_⟩
  rw [Scan.scalar, Scan.take_drop_of_le hle]
  rfl

section

variable {buf : Bytes} {position : Nat} (hlt : buf.length < Size.largest)
include hlt

theorem Layout.scan_readText {width limit : Nat} {s : String}
    (h : Layout.readText buf position width limit = .ok s) :
    position + width ≤ buf.length ∧
      Scan.text width limit (buf.drop position) =
        some (.text s, buf.drop (position + width)) := by
  simp only [Layout.readText, bind_eq_ok_iff, pure_eq_ok_iff] at h
  obtain ⟨_, hensure, raw, hslice, rfl⟩ := h
  have hle := (Size.le_addSat_iff hlt).mp (Codec.ensure_eq_ok_iff.mp hensure)
  obtain ⟨-, rfl⟩ := Bytes.slice?_eq_some_iff.mp (Codec.slice_eq_ok_iff.mp hslice)
  refine ⟨hle, ?_⟩
  simp only [Scan.text, Scan.take_drop_of_le hle, Option.map_some, List.take_take]

theorem Layout.le_of_ensureElements {count size : Nat}
    (h : Layout.ensureElements buf position count size = .ok ()) :
    position + count * size ≤ buf.length := by
  have hstop := Codec.ensure_eq_ok_iff.mp h
  cases hsum : (Size.mul? count size).bind (Size.add? position) with
  | none =>
    rw [hsum, Option.getD_none] at hstop
    omega
  | some stop =>
    obtain ⟨product, hproduct, hadd⟩ := Option.bind_eq_some_iff.mp hsum
    rw [hsum, Option.getD_some] at hstop
    rw [(Size.mul?_eq_some_iff.mp hproduct).1, (Size.add?_eq_some_iff.mp hadd).1]
    exact hstop

end

/-- Elements that are read each at its multiple of the stride are read one after another. -/
theorem Scan.times_of_range {α β : Type} {buf : Bytes} {read : Bytes → Option (α × Bytes)}
    {readAt : Nat → Except CodecError β} (proj : β → α) {stride : Nat}
    (hread : ∀ p b, p + stride ≤ buf.length → readAt p = .ok b →
      read (buf.drop p) = some (proj b, buf.drop (p + stride)))
    {count position : Nat} {found : List β} (hle : position + count * stride ≤ buf.length)
    (h : (List.range count).mapM (fun k => readAt (position + k * stride)) = .ok found) :
    Scan.times read count (buf.drop position) =
      some (found.map proj, buf.drop (position + count * stride)) := by
  induction count generalizing position found with
  | zero =>
    cases h
    rw [Nat.zero_mul, Nat.add_zero]
    rfl
  | succ count ih =>
    have hmove : ∀ k, position + (k + 1) * stride = position + stride + k * stride := by
      intro k
      rw [Nat.succ_mul]
      omega
    rw [List.range_succ_eq_map, List.mapM_cons, Nat.zero_mul, Nat.add_zero] at h
    simp only [List.mapM_map, Function.comp_def, Nat.succ_eq_add_one, hmove, bind_eq_ok_iff,
      pure_eq_ok_iff] at h
    obtain ⟨b, hb, later, hlater, rfl⟩ := h
    rw [hmove] at hle ⊢
    simp only [Scan.times, hread position b (by omega) hb, Option.bind_some, ih hle hlater]
    rfl

/-! ## Layouts -/

/-- What `decodeFrom` reads at a position, the left-to-right reader reads behind it. -/
def Layout.Scans (layout : Layout) : Prop :=
  ∀ (buf : Bytes) (base : Nat) (record : Record) (length : Nat), buf.length < Size.largest →
    base + layout.start ≤ buf.length → layout.decodeFrom buf base = .ok (record, length) →
    layout.staticSize ≤ length ∧ (layout.isDynamic = false → length = layout.staticSize) ∧
      base + length ≤ buf.length ∧
      layout.scan? (buf.drop base) = some (record, buf.drop (base + length))

section

variable {buf : Bytes} {position : Nat} (hlt : buf.length < Size.largest)
include hlt

theorem ElementCodec.scan_decode? {element : ElementCodec Layout} (hstrided : element.Strided)
    (hnested : ∀ inner ∈ element.nested, inner.start = 0 ∧ inner.Scans) {count : Nat}
    {value : Value} (h : Layout.decodeElements element buf position count = .ok value) :
    position + count * element.size ≤ buf.length ∧
      element.scan? count (buf.drop position) =
        some (value, buf.drop (position + count * element.size)) := by
  cases element with
  | scalar type =>
    rw [Layout.decodeElements] at h
    by_cases hbyte : type = .u8
    · subst hbyte
      simp only [Layout.readScalars, bind_eq_ok_iff, pure_eq_ok_iff] at h
      obtain ⟨_, -, raw, hslice, rfl⟩ := h
      obtain ⟨hle, rfl⟩ := Bytes.slice?_eq_some_iff.mp (Codec.slice_eq_ok_iff.mp hslice)
      have hsize : count * Primitive.u8.width = count := Nat.mul_one count
      rw [ElementCodec.size, hsize, ElementCodec.scan?, Scan.take_drop_of_le hle]
      exact ⟨hle, rfl⟩
    · simp only [Layout.readScalars.eq_2 _ _ _ _ hbyte, bind_eq_ok_iff, pure_eq_ok_iff] at h
      obtain ⟨_, hensure, items, hfound, rfl⟩ := h
      have hle := Layout.le_of_ensureElements hlt hensure
      have htimes := Scan.times_of_range id
        (fun p s _ hs => (Codec.scan_readScalar hs).2) hle hfound
      rw [List.map_id] at htimes
      rw [ElementCodec.scan?.eq_2 _ _ _ hbyte, htimes]
      exact ⟨hle, rfl⟩
  | struct layout =>
    obtain ⟨hstart, hscans⟩ := hnested layout (by simp [ElementCodec.nested])
    simp only [Layout.decodeElements, bind_eq_ok_iff, pure_eq_ok_iff] at h
    obtain ⟨_, hensure, items, hfound, rfl⟩ := h
    have hle := Layout.le_of_ensureElements hlt hensure
    refine ⟨hle, ?_⟩
    have htimes : Scan.times (fun rest => layout.scan? rest) count (buf.drop position) =
        some (items.map Prod.fst, buf.drop (position + count * layout.staticSize)) := by
      refine Scan.times_of_range Prod.fst (fun p item hp hitem => ?_) hle hfound
      obtain ⟨-, hstatic, -, hscan⟩ := hscans buf p item.1 item.2 hlt (by omega) hitem
      rw [hstatic hstrided.1] at hscan
      exact hscan
    simp only [ElementCodec.scan?, htimes, Option.map_some, List.map_map]
    rfl

/-- A field that is read at its position takes its fixed width and its span off the bytes there. -/
theorem FieldCodec.scan_decode? (hpos : position ≤ buf.length) {codec : FieldCodec Layout}
    (hsized : codec.Sized) (hnested : ∀ inner ∈ codec.nested, inner.start = 0 ∧ inner.Scans)
    {counts : List Nat} {name : String} {value : Value} {span : Nat}
    (h : Layout.decodeField codec name buf position counts = .ok (value, span)) :
    codec.Spans span ∧ position + codec.staticWidth + span ≤ buf.length ∧
      codec.scan? counts (buf.drop position) =
        some (value, buf.drop (position + codec.staticWidth + span)) := by
  cases codec with
  | scalar type =>
    simp only [Layout.decodeField, bind_eq_ok_iff, pure_eq_ok_iff, Prod.mk.injEq] at h
    obtain ⟨s, hread, rfl, rfl⟩ := h
    obtain ⟨hle, hscan⟩ := Codec.scan_readScalar hread
    refine ⟨fun _ => rfl, hle, ?_⟩
    rw [FieldCodec.scan?, hscan]
    rfl
  | text width =>
    cases width with
    | fixed capacity =>
      simp only [Layout.decodeField, bind_eq_ok_iff, pure_eq_ok_iff, Prod.mk.injEq] at h
      obtain ⟨s, hread, rfl, rfl⟩ := h
      obtain ⟨hle, hscan⟩ := Layout.scan_readText hlt hread
      refine ⟨fun _ => rfl, hle, ?_⟩
      rw [FieldCodec.scan?, hscan]
      rfl
    | counted source =>
      simp only [Layout.decodeField, bind_eq_ok_iff, pure_eq_ok_iff, Prod.mk.injEq] at h
      obtain ⟨s, hread, rfl, rfl⟩ := h
      obtain ⟨hle, hscan⟩ := Layout.scan_readText hlt hread
      have hexact : Size.addSat (counts.getD source 0) 1 = counts.getD source 0 + 1 := by
        unfold Size.addSat at hle ⊢
        omega
      have hmove : position + Size.addSat (counts.getD source 0) 1 =
          position + FieldCodec.staticWidth (.text (.counted source)) + counts.getD source 0 := by
        rw [hexact, FieldCodec.staticWidth]
        omega
      refine ⟨by simp [FieldCodec.Spans, FieldCodec.span?], hmove ▸ hle, ?_⟩
      rw [FieldCodec.scan?, ← hmove, ← hscan, hexact]
  | array element length =>
    simp only [Layout.decodeField, bind_eq_ok_iff, pure_eq_ok_iff, Prod.mk.injEq] at h
    obtain ⟨value, hread, rfl, rfl⟩ := h
    obtain ⟨hle, hscan⟩ := element.scan_decode? hlt hsized.1 hnested hread
    rw [Nat.mul_comm] at hle hscan
    exact ⟨fun _ => rfl, hle, by rw [FieldCodec.scan?]; exact hscan⟩
  | list element source =>
    simp only [Layout.decodeField, bind_eq_ok_iff, pure_eq_ok_iff, Prod.mk.injEq] at h
    obtain ⟨span, hspan, value, hread, rfl, rfl⟩ := h
    obtain ⟨rfl, -⟩ := Codec.scaled_eq_ok_iff.mp hspan
    obtain ⟨hle, hscan⟩ := element.scan_decode? hlt hsized hnested hread
    exact ⟨by simp [FieldCodec.Spans, FieldCodec.span?], hle, by rw [FieldCodec.scan?]; exact hscan⟩
  | struct layout =>
    obtain ⟨hstart, hscans⟩ := hnested layout (by simp [FieldCodec.nested])
    simp only [Layout.decodeField, bind_eq_ok_iff, pure_eq_ok_iff, Prod.mk.injEq, Prod.exists] at h
    obtain ⟨inner, length, hread, span, hspan, rfl, rfl⟩ := h
    obtain ⟨-, rfl⟩ := Codec.spanOf_eq_ok_iff.mp hspan
    obtain ⟨hle, hstatic, hstop, hscan⟩ := hscans buf position inner length hlt (by omega) hread
    have hmove : position + (FieldCodec.struct layout).staticWidth + (length - layout.staticSize) =
        position + length := by
      rw [FieldCodec.staticWidth]
      omega
    refine ⟨fun hspan => ?_, hmove ▸ hstop, ?_⟩
    · rw [hstatic (by simpa [FieldCodec.span?] using hspan), Nat.sub_self]
    · rw [FieldCodec.scan?, hscan, hmove]
      rfl

end

theorem Value.count?_of_countOf {name : String} {value : Value} {count : Nat}
    (h : Codec.countOf name value = .ok count) : value.count? = some count := by
  rw [Codec.countOf] at h
  rw [Value.count?]
  cases hint : value.toInt? with
  | none =>
    rw [hint] at h
    cases h
  | some i =>
    rw [hint] at h
    dsimp only at h
    split at h
    · cases h
    · next hnonneg =>
      rw [Option.bind_some, if_neg hnonneg, Except.ok.inj h]

namespace Layout

/-- Fields that are read by position are read one after another. -/
theorem scanFields?_decodeFields {index : Nat} {offset stop : Offset}
    {fields : List (FieldLayout Layout)} (htiled : Tiled index offset fields stop)
    (hsized : ∀ field ∈ fields, field.codec.Sized)
    (hnested : ∀ field ∈ fields, ∀ inner ∈ field.codec.nested, inner.start = 0 ∧ inner.Scans)
    {buf : Bytes} (hlt : buf.length < Size.largest) {base position : Nat} {spans counts : List Nat}
    (hindex : index = spans.length) (hstands : offset.Stands base spans position)
    (hpos : position ≤ buf.length) {values : List Value} {all : List Nat}
    (h : decodeFields fields buf base spans counts = .ok (values, all)) :
    ∃ last, stop.Stands base all last ∧ last ≤ buf.length ∧
      scanFields? fields counts (buf.drop position) = some (values, buf.drop last) := by
  induction htiled generalizing position spans counts values with
  | nil index stop =>
    rw [decodeFields] at h
    cases h
    exact ⟨position, hstands, hpos, by rw [scanFields?]⟩
  | @cons index field fields stop label _ ih =>
    obtain ⟨found, value, span, count, later, hlocate, hvalue, hcount, hlater, rfl⟩ :=
      decodeFields_cons_eq_ok_iff.mp h
    obtain ⟨rfl, -⟩ := Codec.eq_of_locate_of_stands hlocate hstands
    obtain ⟨hspan, hstop, hscan⟩ := FieldCodec.scan_decode? hlt hpos (hsized field (by simp))
      (hnested field (by simp)) hvalue
    have hnext := hstands.behind hspan label
    rw [← hindex] at hnext
    obtain ⟨last, hlast, hle, hrest⟩ := ih (fun other hother => hsized other (by simp [hother]))
      (fun other hother => hnested other (by simp [hother])) (by simp [hindex]) hnext hstop hlater
    have hcounted : (if field.isSizeField then value.count? else some 0) = some count := by
      by_cases hsize : field.isSizeField = true
      · rw [if_pos hsize] at hcount ⊢
        exact Value.count?_of_countOf hcount
      · rw [if_neg hsize] at hcount ⊢
        exact congrArg some (Except.ok.inj hcount)
    refine ⟨last, hlast, hle, ?_⟩
    rw [scanFields?_cons, hscan]
    simp only [Option.bind_some, hcounted, hrest, Option.map_some]

/-- What `decodeFrom` reads, the left-to-right reader reads. -/
theorem WellFormed.scans {layout : Layout} (h : layout.WellFormed) : layout.Scans := by
  induction h with
  | @intro layout coherent _ ih =>
    intro buf base record length hlt hbase hdecode
    obtain ⟨values, spans, hfields, hlength, rfl⟩ := decodeFrom_eq_ok_iff.mp hdecode
    obtain ⟨last, hlast, hle, hscan⟩ := scanFields?_decodeFields coherent.tiled coherent.sized
      (fun field hfield inner hinner =>
        have hmem := mem_nested hfield hinner
        ⟨coherent.starts inner hmem, ih inner hmem⟩)
      hlt rfl (Offset.stands_start base layout.start) hbase hfields
    have htotal := (Codec.locate_eq_ok_iff.mp hlength).1
    have hposition := hlast.position
    have hstatic := layout.stop.constant_le_total spans
    have hend : base + length = last := by omega
    refine ⟨?_, fun hdynamic => Codec.length_of_locate_stop hdynamic hlength, hend ▸ hle, ?_⟩
    · rw [staticSize]
      omega
    · rw [scan?_eq, Scan.take_drop_of_le hbase]
      simp only [Option.bind_some, hscan, Option.map_some, hend]
      rw [assembleRecord_eq_arrange coherent.names
        (coherent.order.nodup_iff.mpr List.nodup_range) values]

end Layout

end PacketWire
