import PacketWire.Proofs.Codec.Access
import PacketWire.Proofs.Wire.Serial

/-!
# A left-to-right reader

The counterpart of the serialisation: a reader that takes bytes off the front, field after field,
and knows of no position. It fails where bytes run out and where a size field is negative, and
nowhere else.

* `Layout.WellFormed.rereads`: reading a serialisation gives the normal form of its record and
  leaves what stands behind.
-/

namespace PacketWire

/-! ## Reading -/

namespace Scan

/-- Takes so many bytes off the front. -/
def take (n : Nat) (bytes : Bytes) : Option (Bytes × Bytes) :=
  if n ≤ bytes.length then some (bytes.take n, bytes.drop n) else none

/-- Reads so many times. -/
def times {α : Type} (read : Bytes → Option (α × Bytes)) : Nat → Bytes → Option (List α × Bytes)
  | 0, bytes => some ([], bytes)
  | n + 1, bytes =>
    (read bytes).bind fun (a, rest) => (times read n rest).map fun (as, rest) => (a :: as, rest)

def scalar (type : Primitive) (bytes : Bytes) : Option (Scalar × Bytes) :=
  (take type.width bytes).map fun (raw, rest) => (Scalar.ofBytes type raw, rest)

/-- Takes `width` bytes, for the text before the first zero among the first `limit`. -/
def text (width limit : Nat) (bytes : Bytes) : Option (Value × Bytes) :=
  (take width bytes).map fun (raw, rest) =>
    (.text (Utf8.decodeLossy ((raw.take limit).takeWhile (· != 0))), rest)

end Scan

/-- The count that a size field carries, unless it is negative. -/
def Value.count? (value : Value) : Option Nat :=
  value.toInt?.bind fun count => if count < 0 then none else some count.toNat

mutual
/-- Reads a record: what stands in front of the fields, then the fields. -/
def Layout.scan? : Layout → Bytes → Option (Record × Bytes)
  | ⟨_, start, fields, _, buildOrder⟩, bytes =>
    (Scan.take start bytes).bind fun (_, rest) =>
      (scanFields? fields [] rest).map fun (values, rest) =>
        (Record.arrange (fields.map (·.name)) buildOrder values, rest)

/-- Reads a list of fields, given the counts of those before them. -/
def scanFields? : List (FieldLayout Layout) → List Nat → Bytes → Option (List Value × Bytes)
  | [], _, bytes => some ([], bytes)
  | ⟨slot, codec⟩ :: rest, counts, bytes =>
    (codec.scan? counts bytes).bind fun (value, bytes) =>
      (if slot.isSizeField then value.count? else some 0).bind fun count =>
        (scanFields? rest (counts ++ [count]) bytes).map fun (values, bytes) =>
          (value :: values, bytes)

/-- Reads one field. -/
def FieldCodec.scan? : FieldCodec Layout → List Nat → Bytes → Option (Value × Bytes)
  | .scalar type, _, bytes => (Scan.scalar type bytes).map fun (s, rest) => (.scalar s, rest)
  | .text (.fixed width), _, bytes => Scan.text width width bytes
  | .text (.counted source), counts, bytes =>
    let count := counts.getD source 0
    Scan.text (count + 1) count bytes
  | .array element length, _, bytes => element.scan? length bytes
  | .list element source, counts, bytes => element.scan? (counts.getD source 0) bytes
  | .struct layout, _, bytes => (layout.scan? bytes).map fun (record, rest) => (.record record, rest)

/-- Reads the elements of an array. -/
def ElementCodec.scan? : ElementCodec Layout → Nat → Bytes → Option (Value × Bytes)
  | .scalar .u8, count, bytes => (Scan.take count bytes).map fun (raw, rest) => (.bytes raw, rest)
  | .scalar type, count, bytes =>
    (Scan.times (Scan.scalar type) count bytes).map fun (items, rest) =>
      (.array (items.map Value.scalar), rest)
  | .struct layout, count, bytes =>
    (Scan.times (fun rest => layout.scan? rest) count bytes).map fun (records, rest) =>
      (.array (records.map Value.record), rest)
end

/-- Reads a packet: its header bytes and fields, then its sequence byte. -/
def Descriptor.scan? (d : Descriptor) (bytes : Bytes) : Option (Record × Bytes) :=
  (d.layout.scan? bytes).bind fun (record, rest) =>
    (Scan.take d.trailerLength rest).map fun (_, rest) => (record, rest)

theorem Layout.scan?_eq (layout : Layout) (bytes : Bytes) :
    layout.scan? bytes = (Scan.take layout.start bytes).bind fun (_, rest) =>
      (scanFields? layout.fields [] rest).map fun (values, rest) =>
        (Record.arrange (layout.fields.map (·.name)) layout.buildOrder values, rest) := by
  cases layout
  rw [Layout.scan?]

theorem scanFields?_cons (field : FieldLayout Layout) (rest : List (FieldLayout Layout))
    (counts : List Nat) (bytes : Bytes) :
    scanFields? (field :: rest) counts bytes =
      (field.codec.scan? counts bytes).bind fun (value, bytes) =>
        (if field.isSizeField then value.count? else some 0).bind fun count =>
          (scanFields? rest (counts ++ [count]) bytes).map fun (values, bytes) =>
            (value :: values, bytes) := by
  obtain ⟨slot, codec⟩ := field
  rw [scanFields?]

namespace Scan

theorem take_append {n : Nat} {front : Bytes} (h : front.length = n) (rest : Bytes) :
    take n (front ++ rest) = some (front, rest) := by
  subst h
  simp [take]

theorem text_append {width limit : Nat} {front : Bytes} (h : front.length = width) (rest : Bytes) :
    text width limit (front ++ rest) =
      some (.text (Utf8.decodeLossy ((front.take limit).takeWhile (· != 0))), rest) := by
  rw [text, take_append h]
  rfl

/-- Reading what a list of items stands for, one item after another. -/
theorem times_concat? {α β γ : Type} {write : α → Option Bytes} {read : Bytes → Option (β × Bytes)}
    {normal : α → Option γ} {wrap : β → γ} {items : List α}
    (hread : ∀ a ∈ items, ∀ bytes rest, write a = some bytes →
      ∃ b, normal a = some (wrap b) ∧ read (bytes ++ rest) = some (b, rest))
    {out : Bytes} (h : concat? write items = some out) (rest : Bytes) :
    ∃ found, items.mapM normal = some (found.map wrap) ∧
      times read items.length (out ++ rest) = some (found, rest) := by
  induction items generalizing out with
  | nil =>
    cases h
    exact ⟨[], rfl, rfl⟩
  | cons a items ih =>
    simp only [concat?, Option.bind_eq_some_iff, Option.map_eq_some_iff] at h
    obtain ⟨bytes, hbytes, tail, htail, rfl⟩ := h
    obtain ⟨b, hnormal, hb⟩ := hread a (by simp) bytes (tail ++ rest) hbytes
    obtain ⟨found, hfound, htimes⟩ := ih (fun c hc => hread c (by simp [hc])) htail
    refine ⟨b :: found, ?_, ?_⟩
    · simp [hnormal, hfound]
    · rw [List.length_cons, times, List.append_assoc]
      simp only [hb, Option.bind_some, htimes, Option.map_some]

/-- A scalar is read back from its bytes. -/
theorem scalar_scalarBytes? {type : Primitive} {value : Value} {bytes : Bytes}
    (h : value.scalarBytes? type = some bytes) (rest : Bytes) :
    ∃ s, value = .scalar s ∧ s.type = type ∧ scalar type (bytes ++ rest) = some (s, rest) := by
  have hlength := Value.length_scalarBytes? h
  cases value with
  | scalar s =>
    rw [Value.scalarBytes?] at h
    split at h
    · next htype =>
      subst htype
      refine ⟨s, rfl, rfl, ?_⟩
      rw [scalar, take_append hlength]
      cases h
      exact congrArg (fun s => some (s, rest)) s.ofBytes_toBytes
    · cases h
  | _ => simp [Value.scalarBytes?] at h

end Scan

/-! ## Reading a serialisation -/

/-- Reading a serialisation of a layout gives the normal form of the record and leaves what stands
behind. -/
def Layout.Rereads (layout : Layout) : Prop :=
  ∀ record body, layout.serial? record = some body → ∀ head rest, head.length = layout.start →
    ∃ normal, layout.normal? record = some normal ∧
      layout.scan? (head ++ (body ++ rest)) = some (normal, rest)

theorem TextWidth.scan_bytes? {width : TextWidth} {s : String} {bytes : Bytes}
    (h : width.bytes? s = some bytes) {counts : List Nat}
    (hcount : ∀ i, width = .counted i → counts.getD i 0 = Utf8.length s) (rest : Bytes) :
    FieldCodec.scan? (.text width) counts (bytes ++ rest) = some (.text s, rest) := by
  obtain ⟨ascii, hascii, hlength⟩ := TextWidth.length_bytes? h
  simp only [TextWidth.bytes?, hascii, Option.bind_some] at h
  cases width with
  | fixed capacity =>
    dsimp only at h hlength
    rw [FieldCodec.scan?, Scan.text_append hlength]
    split at h
    · cases h
      rw [List.take_of_length_le (Nat.le_of_eq hlength), Value.takeWhile_asciiBytes? hascii,
        Value.decodeLossy_asciiBytes? hascii]
    · cases h
  | counted i =>
    cases h
    have hi : counts.getD i 0 = ascii.length := by
      rw [hcount i rfl, Value.length_asciiBytes? hascii]
    have hstop := Value.takeWhile_asciiBytes? hascii 0
    rw [List.replicate_zero, List.append_nil] at hstop
    rw [FieldCodec.scan?]
    simp only [hi]
    rw [Scan.text_append hlength, List.take_left' rfl, hstop, Value.decodeLossy_asciiBytes? hascii]

theorem mapM_byte? {items : List Value} {bytes : Bytes}
    (h : concat? (Value.scalarBytes? .u8) items = some bytes) :
    items.mapM Value.byte? = some bytes := by
  induction items generalizing bytes with
  | nil =>
    cases h
    rfl
  | cons item items ih =>
    simp only [concat?, Option.bind_eq_some_iff, Option.map_eq_some_iff] at h
    obtain ⟨front, hfront, tail, htail, rfl⟩ := h
    cases item with
    | scalar s =>
      simp only [Value.scalarBytes?, Option.ite_none_right_eq_some, Option.some.injEq] at hfront
      obtain ⟨htype, rfl⟩ := hfront
      simp [Value.byte?, htype, ih htail, Bytes.littleEndian, Primitive.width]
    | _ => simp [Value.scalarBytes?] at hfront

theorem ElementCodec.scan_serial? {element : ElementCodec Layout}
    (hnested : ∀ inner ∈ element.nested, inner.start = 0 ∧ inner.Rereads) {value : Value}
    {bytes : Bytes} (h : element.serial? value = some bytes) {count : Nat}
    (hcount : value.length? = some count) (rest : Bytes) :
    ∃ normal, element.normal? value = some normal ∧
      element.scan? count (bytes ++ rest) = some (normal, rest) := by
  cases element with
  | scalar type =>
    by_cases hbyte : type = .u8
    · subst hbyte
      cases value with
      | bytes b =>
        cases h
        cases hcount
        refine ⟨.bytes bytes, rfl, ?_⟩
        rw [ElementCodec.scan?, Scan.take_append rfl]
        rfl
      | array items =>
        cases hcount
        have hconcat : concat? (Value.scalarBytes? .u8) items = some bytes := by
          simpa [ElementCodec.serial?] using h
        refine ⟨.bytes bytes, by simp [ElementCodec.normal?, mapM_byte? hconcat], ?_⟩
        have hlength := length_concat? (fun _ _ _ => Value.length_scalarBytes?) hconcat
        rw [ElementCodec.scan?, Scan.take_append (by simpa [Primitive.width] using hlength)]
        rfl
      | _ => simp [ElementCodec.serial?] at h
    · cases value with
      | array items =>
        cases hcount
        have hconcat : concat? (Value.scalarBytes? type) items = some bytes := by
          cases type <;> simp_all [ElementCodec.serial?]
        have hread : ∀ item ∈ items, ∀ raw rest, item.scalarBytes? type = some raw →
            ∃ s, some item = some (Value.scalar s) ∧
              Scan.scalar type (raw ++ rest) = some (s, rest) := by
          intro item _ raw rest hraw
          obtain ⟨s, hs, -, hscan⟩ := Scan.scalar_scalarBytes? hraw rest
          exact ⟨s, congrArg some hs, hscan⟩
        obtain ⟨found, hfound, htimes⟩ := Scan.times_concat? hread hconcat rest
        have hitems : items = found.map Value.scalar := by
          rw [show items.mapM some = some items from by
            simpa using List.mapM_pure (m := Option) (l := items) (f := id)] at hfound
          exact Option.some.inj hfound
        refine ⟨.array items, ?_, ?_⟩
        · cases type <;> first | rfl | exact absurd rfl hbyte
        · rw [ElementCodec.scan?, htimes, hitems]
          · rfl
          · exact hbyte
      | _ => cases type <;> simp_all [ElementCodec.serial?]
  | struct layout =>
    obtain ⟨hstart, hrereads⟩ := hnested layout (by simp [ElementCodec.nested])
    cases value with
    | array items =>
      cases hcount
      rw [ElementCodec.serial?] at h
      have hread : ∀ item ∈ items, ∀ raw rest,
          (item.record?.bind fun record => layout.serial? record) = some raw →
          ∃ found, (item.record?.bind fun record => (layout.normal? record).map Value.record) =
              some (Value.record found) ∧
            layout.scan? (raw ++ rest) = some (found, rest) := by
        intro item _ raw rest hraw
        obtain ⟨record, hrecord, hserial⟩ := Option.bind_eq_some_iff.mp hraw
        obtain ⟨normal, hnormal, hscan⟩ := hrereads record raw hserial [] rest hstart.symm
        exact ⟨normal, by simp [hrecord, hnormal], hscan⟩
      obtain ⟨found, hfound, htimes⟩ := Scan.times_concat? hread h rest
      refine ⟨.array (found.map Value.record), ?_, ?_⟩
      · rw [ElementCodec.normal?, hfound]
        rfl
      · rw [ElementCodec.scan?, htimes]
        rfl
    | _ => simp [ElementCodec.serial?] at h

theorem FieldCodec.scan_serial? {codec : FieldCodec Layout}
    (hnested : ∀ inner ∈ codec.nested, inner.start = 0 ∧ inner.Rereads) {value : Value}
    {bytes : Bytes} (h : codec.serial? value = some bytes) {counts : List Nat}
    (hcount : ∀ i, codec.source? = some i → value.length? = some (counts.getD i 0))
    (rest : Bytes) :
    ∃ normal, codec.normal? value = some normal ∧
      codec.scan? counts (bytes ++ rest) = some (normal, rest) := by
  cases codec with
  | scalar type =>
    rw [FieldCodec.serial?] at h
    obtain ⟨s, rfl, -, hscan⟩ := Scan.scalar_scalarBytes? h rest
    refine ⟨.scalar s, rfl, ?_⟩
    rw [FieldCodec.scan?, hscan]
    rfl
  | text width =>
    cases value with
    | text s =>
      rw [FieldCodec.serial?] at h
      refine ⟨.text s, rfl, TextWidth.scan_bytes? h (fun i hi => ?_) rest⟩
      subst hi
      exact (Option.some.inj (hcount i rfl)).symm
    | _ => simp [FieldCodec.serial?] at h
  | array element length =>
    rw [FieldCodec.serial?] at h
    split at h
    · next hlength =>
      rw [FieldCodec.normal?, FieldCodec.scan?]
      exact element.scan_serial? hnested h hlength rest
    · cases h
  | list element source =>
    rw [FieldCodec.serial?] at h
    rw [FieldCodec.normal?, FieldCodec.scan?]
    exact element.scan_serial? hnested h (hcount source rfl) rest
  | struct layout =>
    obtain ⟨hstart, hrereads⟩ := hnested layout (by simp [FieldCodec.nested])
    cases value with
    | record record =>
      rw [FieldCodec.serial?] at h
      obtain ⟨normal, hnormal, hscan⟩ := hrereads record bytes h [] rest hstart.symm
      refine ⟨.record normal, ?_, ?_⟩
      · rw [FieldCodec.normal?, hnormal]
        rfl
      · rw [FieldCodec.scan?, show bytes ++ rest = [] ++ (bytes ++ rest) from rfl, hscan]
        rfl
    | _ => simp [FieldCodec.serial?] at h

/-! ## Counts -/

theorem FieldCodec.scan_countBytes? {codec : FieldCodec Layout} {count : Nat} {bytes : Bytes}
    (h : codec.countBytes? count = some bytes) (counts : List Nat) (rest : Bytes) :
    ∃ value, codec.countValue? count = some value ∧
      codec.scan? counts (bytes ++ rest) = some (value, rest) ∧ value.count? = some count := by
  unfold FieldCodec.countBytes? at h
  split at h
  · next type =>
    split at h
    · next hlt =>
      cases h
      obtain ⟨hbits, hint⟩ := Scalar.toInt?_ofNat hlt
      have hbytes : Value.scalarBytes? type (.scalar (Scalar.ofNat type count)) =
          some (Bytes.littleEndian type.width count) := by
        rw [Value.scalarBytes?, hbits]
        exact if_pos rfl
      obtain ⟨s, hs, -, hscan⟩ := Scan.scalar_scalarBytes? hbytes rest
      cases hs
      refine ⟨.scalar (Scalar.ofNat type count), ?_, ?_, ?_⟩
      · rw [FieldCodec.countValue?, Scalar.ofCount?, if_pos hlt]
        rfl
      · rw [FieldCodec.scan?, hscan]
        rfl
      · simp [Value.count?, Value.toInt?, hint]
    · cases h
  · cases h


/-! ## All fields -/

/-- The size fields read so far have the counts that a record asks for. -/
def Layout.Counted (layout : Layout) (record : Record) (counts : List Nat) : Prop :=
  ∀ (i : Nat) (field : FieldLayout Layout), i < counts.length → layout.fields[i]? = some field →
    field.isSizeField = true →
    record.commonLength? (layout.fields.map (·.name)) field.dependents = some (counts.getD i 0)

namespace Layout

variable {layout : Layout} {record : Record}

/-- The count that a field of variable length is read with is the length of its value. -/
theorem Counted.length?_eq (coherent : layout.Coherent) {counts : List Nat}
    (hcounted : layout.Counted record counts) {field : FieldLayout Layout}
    (hfield : layout.fields[counts.length]? = some field) {value : Value}
    (hvalue : record.get? field.name = some value) {i : Nat}
    (hsource : field.codec.source? = some i) : value.length? = some (counts.getD i 0) := by
  obtain ⟨hlt, source, hi, hsize, hmem⟩ := coherent.source_isSizeField hfield hsource
  have hcommon := (Record.commonLength?_eq_some_iff.mp (hcounted i source hlt hi hsize)).2 _ hmem
  simpa [Record.lengthAt?, hfield, hvalue] using hcommon

/-- One field more: it is read back, and its count is known from there on. -/
theorem Counted.step (coherent : layout.Coherent) {counts : List Nat}
    (hcounted : layout.Counted record counts) {field : FieldLayout Layout}
    (hfield : layout.fields[counts.length]? = some field)
    (hnested : ∀ inner ∈ field.codec.nested, inner.start = 0 ∧ inner.Rereads) {bytes : Bytes}
    (hbytes : field.bytes? (layout.fields.map (·.name)) record = some bytes) (rest : Bytes) :
    ∃ value count, field.normal? (layout.fields.map (·.name)) record = some value ∧
      field.codec.scan? counts (bytes ++ rest) = some (value, rest) ∧
      (if field.isSizeField then value.count? else some 0) = some count ∧
      layout.Counted record (counts ++ [count]) := by
  have hextend : ∀ count, (field.isSizeField = true →
      record.commonLength? (layout.fields.map (·.name)) field.dependents = some count) →
      layout.Counted record (counts ++ [count]) := by
    intro count hcount i other hi hother hsize
    rw [List.length_append, List.length_singleton] at hi
    by_cases hlast : i = counts.length
    · subst hlast
      rw [hfield] at hother
      cases hother
      simpa using hcount hsize
    · have hlt : i < counts.length := by omega
      rw [List.getD_eq_getElem?_getD, List.getElem?_append_left hlt, ← List.getD_eq_getElem?_getD]
      exact hcounted i other hlt hother hsize
  unfold FieldLayout.bytes? at hbytes
  unfold FieldLayout.normal?
  by_cases hsize : field.isSizeField = true
  · rw [if_pos hsize] at hbytes ⊢
    obtain ⟨count, hcommon, hcount⟩ := Option.bind_eq_some_iff.mp hbytes
    obtain ⟨value, hvalue, hscan, hread⟩ := FieldCodec.scan_countBytes? hcount counts rest
    refine ⟨value, count, ?_, hscan, ?_, hextend count fun _ => hcommon⟩
    · rw [hcommon]
      exact hvalue
    · rw [if_pos hsize, hread]
  · rw [if_neg hsize] at hbytes ⊢
    obtain ⟨found, hfound, hserial⟩ := Option.bind_eq_some_iff.mp hbytes
    obtain ⟨value, hvalue, hscan⟩ := field.codec.scan_serial? hnested hserial
      (fun i hi => hcounted.length?_eq coherent hfield hfound hi) rest
    refine ⟨value, 0, ?_, hscan, if_neg hsize, hextend 0 fun h => absurd h hsize⟩
    rw [hfound]
    exact hvalue

theorem scanFields?_serialFields? (coherent : layout.Coherent)
    (hnested : ∀ inner ∈ layout.nested, inner.Rereads) {done fields : List (FieldLayout Layout)}
    (hfields : layout.fields = done ++ fields) {counts : List Nat}
    (hdone : counts.length = done.length) (hcounted : layout.Counted record counts) {body : Bytes}
    (h : serialFields? fields (layout.fields.map (·.name)) record = some body) (rest : Bytes) :
    ∃ values, normalFields? fields (layout.fields.map (·.name)) record = some values ∧
      scanFields? fields counts (body ++ rest) = some (values, rest) := by
  induction fields generalizing done counts body with
  | nil =>
    cases h
    exact ⟨[], by rw [normalFields?], by rw [scanFields?, List.nil_append]⟩
  | cons field fields ih =>
    simp only [serialFields?_cons, Option.bind_eq_some_iff, Option.map_eq_some_iff] at h
    obtain ⟨bytes, hbytes, tail, htail, rfl⟩ := h
    have hmem : field ∈ layout.fields := by simp [hfields]
    have hfield : layout.fields[counts.length]? = some field := by simp [hfields, hdone]
    obtain ⟨value, count, hvalue, hscan, hcount, hnext⟩ :=
      hcounted.step coherent hfield (fun inner hinner =>
        have hin := mem_nested hmem hinner
        ⟨coherent.starts inner hin, hnested inner hin⟩) hbytes (tail ++ rest)
    have hsplit : layout.fields = (done ++ [field]) ++ fields := by simp [hfields]
    obtain ⟨values, hvalues, hrest⟩ := ih hsplit (by simp [hdone]) hnext htail
    refine ⟨value :: values, ?_, ?_⟩
    · rw [normalFields?_cons, hvalue, hvalues]
      rfl
    · rw [scanFields?_cons, List.append_assoc, hscan]
      simp only [Option.bind_some, hcount, hrest, Option.map_some]

/-- Reading a serialisation gives the normal form of its record. -/
theorem WellFormed.rereads {layout : Layout} (h : layout.WellFormed) : layout.Rereads := by
  induction h with
  | @intro layout coherent _ ih =>
    intro record body hbody head rest hhead
    rw [serial?_eq] at hbody
    have hnone : layout.Counted record [] := fun i field hi => absurd hi (Nat.not_lt_zero i)
    obtain ⟨values, hvalues, hscan⟩ := scanFields?_serialFields? coherent ih
      (List.nil_append _).symm rfl hnone hbody rest
    refine ⟨_, by rw [normal?_eq, hvalues]; rfl, ?_⟩
    rw [scan?_eq, Scan.take_append hhead]
    simp only [Option.bind_some, hscan, Option.map_some]

end Layout

end PacketWire
