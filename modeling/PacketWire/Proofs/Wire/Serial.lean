import PacketWire.Proofs.Layout.Compiled

/-!
# The wire format without offsets

What a record looks like on the wire, written down as a concatenation: the fields of a layout one
after another, each in its own encoding, and around the fields of a packet its header bytes and its
sequence byte. Nothing here knows of offsets, spans or buffers. A record that lacks a field, or has
one that cannot be written, has no serialisation.

Beside it stands the normal form of a record: what a reader of the bytes gets to see.

* `Layout.WellFormed.length_serial`: a serialisation has the fixed size of its layout at least, and
  exactly where nothing is of variable length.
-/

namespace PacketWire

/-! ## Lengths -/

/-- Bytes of a text, or elements of an array. -/
def Value.length? : Value → Option Nat
  | .text s => some (Utf8.length s)
  | .bytes b => some b.length
  | .array items => some items.length
  | .scalar _ | .record _ => none

/-- The record that a value is. -/
def Value.record? : Value → Option Record
  | .record fields => some fields
  | _ => none

/-- The length of what a record holds for the field at an index. -/
def Record.lengthAt? (record : Record) (names : List String) (i : Nat) : Option Nat :=
  (names[i]?.bind record.get?).bind Value.length?

/-- The length that a record's values for some fields have in common. -/
def Record.commonLength? (record : Record) (names : List String) : List Nat → Option Nat
  | [] => none
  | first :: rest =>
    (record.lengthAt? names first).bind fun length =>
      if rest.all fun i => record.lengthAt? names i == some length then some length else none

theorem Record.commonLength?_eq_some_iff {record : Record} {names : List String}
    {dependents : List Nat} {n : Nat} :
    record.commonLength? names dependents = some n ↔
      dependents ≠ [] ∧ ∀ i ∈ dependents, record.lengthAt? names i = some n := by
  cases dependents with
  | nil => simp [Record.commonLength?]
  | cons first rest =>
    simp only [Record.commonLength?, Option.bind_eq_some_iff, Option.ite_none_right_eq_some,
      Option.some.injEq, List.all_eq_true, beq_iff_eq]
    constructor
    · rintro ⟨length, hfirst, hrest, rfl⟩
      refine ⟨by simp, fun i hi => ?_⟩
      rcases List.mem_cons.mp hi with rfl | hi
      · exact hfirst
      · exact hrest i hi
    · rintro ⟨-, hall⟩
      exact ⟨n, hall first (by simp), fun i hi => hall i (by simp [hi]), rfl⟩

/-! ## Serialisation -/

/-- A text in ASCII, without NUL. -/
def Value.asciiBytes? (s : String) : Option Bytes :=
  if s.toList.all fun c => 0 < c.toNat && c.toNat < 0x80 then
    some (s.toList.map fun c => UInt8.ofNat c.toNat)
  else none

/-- A scalar of a type: its bits as a little-endian number of the type's width. -/
def Value.scalarBytes? (type : Primitive) : Value → Option Bytes
  | .scalar s => if s.type = type then some (Bytes.littleEndian type.width s.bits.toNat) else none
  | _ => none

/-- A length in a size field: a little-endian number of the size field's width, if its type can
hold it. -/
def FieldCodec.countBytes? (codec : FieldCodec Layout) (count : Nat) : Option Bytes :=
  match codec with
  | .scalar type =>
    if count < type.countLimit then some (Bytes.littleEndian type.width count) else none
  | _ => none

/-- A text in a field of some width: filled up with zeros, or followed by one. -/
def TextWidth.bytes? (width : TextWidth) (s : String) : Option Bytes :=
  (Value.asciiBytes? s).bind fun bytes =>
    match width with
    | .fixed capacity =>
      if bytes.length ≤ capacity then some (bytes ++ List.replicate (capacity - bytes.length) 0)
      else none
    | .counted _ => some (bytes ++ [0])

/-- The concatenation of what the elements of a list stand for. -/
def concat? {α : Type} (f : α → Option Bytes) : List α → Option Bytes
  | [] => some []
  | a :: rest => (f a).bind fun bytes => (concat? f rest).map (bytes ++ ·)

mutual
/-- The fields of a record, one after another. -/
def Layout.serial? : Layout → Record → Option Bytes
  | ⟨_, _, fields, _, _⟩, record => serialFields? fields (fields.map (·.name)) record

/-- A list of fields, one after another. A size field holds the common length of its dependents. -/
def serialFields? : List (FieldLayout Layout) → List String → Record → Option Bytes
  | [], _, _ => some []
  | ⟨slot, codec⟩ :: rest, names, record =>
    (if slot.isSizeField then
        (record.commonLength? names slot.dependents).bind codec.countBytes?
      else (record.get? slot.name).bind codec.serial?).bind fun bytes =>
      (serialFields? rest names record).map (bytes ++ ·)

/-- The value of a field that counts nothing. -/
def FieldCodec.serial? : FieldCodec Layout → Value → Option Bytes
  | .scalar type, value => value.scalarBytes? type
  | .text width, .text s => width.bytes? s
  | .array element length, value =>
    if value.length? = some length then element.serial? value else none
  | .list element _, value => element.serial? value
  | .struct layout, .record record => layout.serial? record
  | _, _ => none

/-- The elements of an array, one after another. -/
def ElementCodec.serial? : ElementCodec Layout → Value → Option Bytes
  | .scalar .u8, .bytes b => some b
  | .scalar type, .array items => concat? (Value.scalarBytes? type) items
  | .struct layout, .array items =>
    concat? (fun item => item.record?.bind fun record => layout.serial? record) items
  | _, _ => none
end

/-- A packet: the header byte, the sub-header byte if there is one, the fields, and a zero byte if
the packet has a sequence. -/
def Descriptor.wire? (d : Descriptor) (record : Record) : Option Bytes :=
  (d.layout.serial? record).map fun body =>
    d.header :: (d.subHeader.toList ++ body ++ if d.hasSequence then [0] else [])

/-! ## Normal form -/

/-- The byte that a scalar of the byte type is. -/
def Value.byte? : Value → Option UInt8
  | .scalar s => if s.type = .u8 then some (UInt8.ofNat s.bits.toNat) else none
  | _ => none

/-- A count as a value of a size field's own type. -/
def FieldCodec.countValue? (codec : FieldCodec Layout) (count : Nat) : Option Value :=
  match codec with
  | .scalar type => (Scalar.ofCount? type count).map .scalar
  | _ => none

/-- Values under names, listed in the given order of indices. -/
def Record.arrange (names : List String) (order : List Nat) (values : List Value) : Record :=
  ⟨order.filterMap fun i => names[i]?.bind fun name => values[i]?.map fun value => (name, value)⟩

mutual
/-- A record against a layout: the layout's fields and no others, in build order. -/
def Layout.normal? : Layout → Record → Option Record
  | ⟨_, _, fields, _, buildOrder⟩, record =>
    (normalFields? fields (fields.map (·.name)) record).map fun values =>
      Record.arrange (fields.map (·.name)) buildOrder values

/-- The values of a list of fields. A size field holds the common length of its dependents, in its
own type. -/
def normalFields? : List (FieldLayout Layout) → List String → Record → Option (List Value)
  | [], _, _ => some []
  | ⟨slot, codec⟩ :: rest, names, record =>
    (if slot.isSizeField then
        (record.commonLength? names slot.dependents).bind codec.countValue?
      else (record.get? slot.name).bind codec.normal?).bind fun value =>
      (normalFields? rest names record).map (value :: ·)

/-- The value of a field that counts nothing: structs and the elements of arrays are normalised,
all else stays. -/
def FieldCodec.normal? : FieldCodec Layout → Value → Option Value
  | .scalar _, value | .text _, value => some value
  | .array element _, value | .list element _, value => element.normal? value
  | .struct layout, .record record => (layout.normal? record).map Value.record
  | .struct _, _ => none

/-- The value of an array: one of bytes becomes a byte string. -/
def ElementCodec.normal? : ElementCodec Layout → Value → Option Value
  | .scalar .u8, .array items => (items.mapM Value.byte?).map .bytes
  | .struct layout, .array items =>
    (items.mapM fun item : Value =>
      item.record?.bind fun record => (layout.normal? record).map Value.record).map .array
  | _, value => some value
end

/-! ## ASCII -/

/-- A text of characters below 0x80 has a byte for each of them. -/
theorem Utf8.length_ofList {cs : List Char} (h : ∀ c ∈ cs, c.toNat < 0x80) :
    Utf8.length (String.ofList cs) = cs.length := by
  induction cs with
  | nil => rfl
  | cons c cs ih =>
    have hc : c.utf8Size = 1 := by
      rw [Char.utf8Size_eq_one_iff, UInt32.le_iff_toNat_le]
      exact Nat.le_of_lt_succ (h c (by simp))
    have hcs := ih fun other hother => h other (by simp [hother])
    rw [Utf8.length] at hcs
    rw [Utf8.length, String.ofList_cons, String.utf8ByteSize_append,
      String.utf8ByteSize_singleton, hc, hcs, List.length_cons, Nat.add_comm]

/-- What the bytes of an ASCII text are: one for each character, none of them zero. -/
theorem Value.asciiBytes?_eq_some_iff {s : String} {bytes : Bytes} :
    Value.asciiBytes? s = some bytes ↔
      (∀ c ∈ s.toList, 0 < c.toNat ∧ c.toNat < 0x80) ∧
        bytes = s.toList.map fun c => UInt8.ofNat c.toNat := by
  unfold Value.asciiBytes?
  split
  · next h =>
    simp only [List.all_eq_true, Bool.and_eq_true, decide_eq_true_eq] at h
    rw [Option.some.injEq, eq_comm]
    exact ⟨fun heq => ⟨h, heq⟩, fun heq => heq.2⟩
  · next h =>
    simp only [List.all_eq_true, Bool.and_eq_true, decide_eq_true_eq] at h
    simp [h]

section Ascii

variable {s : String} {bytes : Bytes} (h : Value.asciiBytes? s = some bytes)
include h

theorem Value.length_asciiBytes? : bytes.length = Utf8.length s := by
  obtain ⟨hascii, rfl⟩ := Value.asciiBytes?_eq_some_iff.mp h
  rw [List.length_map, ← Utf8.length_ofList fun c hc => (hascii c hc).2, String.ofList_toList]

theorem Value.toNat_of_mem_asciiBytes? {b : UInt8} (hb : b ∈ bytes) : b ≠ 0 ∧ b.toNat < 0x80 := by
  obtain ⟨hascii, rfl⟩ := Value.asciiBytes?_eq_some_iff.mp h
  obtain ⟨c, hc, rfl⟩ := List.mem_map.mp hb
  have := hascii c hc
  have hnat : (UInt8.ofNat c.toNat).toNat = c.toNat := by
    rw [UInt8.toNat_ofNat']
    omega
  refine ⟨fun hzero => ?_, by omega⟩
  rw [hzero, UInt8.toNat_zero] at hnat
  omega

/-- An ASCII text is read back from its bytes. -/
theorem Value.decodeLossy_asciiBytes? : Utf8.decodeLossy bytes = s := by
  rw [Utf8.decodeLossy_ascii bytes fun b hb => (Value.toNat_of_mem_asciiBytes? h hb).2]
  obtain ⟨hascii, rfl⟩ := Value.asciiBytes?_eq_some_iff.mp h
  rw [List.map_map]
  have hid : ∀ c ∈ s.toList,
      ((fun b : UInt8 => Char.ofNat b.toNat) ∘ fun c : Char => UInt8.ofNat c.toNat) c = id c := by
    intro c hc
    have := hascii c hc
    have hnat : (UInt8.ofNat c.toNat).toNat = c.toNat := by
      rw [UInt8.toNat_ofNat']
      omega
    rw [Function.comp_apply, hnat, Char.ofNat_toNat, id]
  rw [List.map_congr_left hid, List.map_id, String.ofList_toList]

/-- A reader that stops at the first zero gets the text of a field that is filled up with zeros. -/
theorem Value.takeWhile_asciiBytes? (n : Nat) :
    (bytes ++ List.replicate n 0).takeWhile (· != 0) = bytes := by
  have hnonzero : ∀ b ∈ bytes, (b != 0) = true := fun b hb =>
    bne_iff_ne.mpr (Value.toNat_of_mem_asciiBytes? h hb).1
  rw [List.takeWhile_append_of_pos hnonzero]
  cases n <;> simp [List.replicate_succ]

end Ascii
/-! ## One field at a time -/

/-- The bytes of a field: the common length of its dependents, or the value under its name. -/
def FieldLayout.bytes? (field : FieldLayout Layout) (names : List String) (record : Record) :
    Option Bytes :=
  if field.isSizeField then
    (record.commonLength? names field.dependents).bind field.codec.countBytes?
  else (record.get? field.name).bind field.codec.serial?

/-- The normalised value of a field. -/
def FieldLayout.normal? (field : FieldLayout Layout) (names : List String) (record : Record) :
    Option Value :=
  if field.isSizeField then
    (record.commonLength? names field.dependents).bind field.codec.countValue?
  else (record.get? field.name).bind field.codec.normal?

theorem Layout.serial?_eq (layout : Layout) (record : Record) :
    layout.serial? record =
      serialFields? layout.fields (layout.fields.map (·.name)) record := by
  cases layout
  rw [Layout.serial?]

theorem Layout.normal?_eq (layout : Layout) (record : Record) :
    layout.normal? record =
      (normalFields? layout.fields (layout.fields.map (·.name)) record).map fun values =>
        Record.arrange (layout.fields.map (·.name)) layout.buildOrder values := by
  cases layout
  rw [Layout.normal?]

theorem serialFields?_cons (field : FieldLayout Layout) (rest : List (FieldLayout Layout))
    (names : List String) (record : Record) :
    serialFields? (field :: rest) names record =
      (field.bytes? names record).bind fun bytes =>
        (serialFields? rest names record).map (bytes ++ ·) := by
  obtain ⟨slot, codec⟩ := field
  rw [serialFields?]
  rfl

theorem bytes?_of_serialFields? {fields : List (FieldLayout Layout)} {names : List String}
    {record : Record} {body : Bytes} (h : serialFields? fields names record = some body) {field : FieldLayout Layout}
    (hfield : field ∈ fields) :
    ∃ bytes, field.bytes? names record = some bytes ∧ bytes.length ≤ body.length := by
  induction fields generalizing body with
  | nil => cases hfield
  | cons first fields ih =>
    simp only [serialFields?_cons, Option.bind_eq_some_iff, Option.map_eq_some_iff] at h
    obtain ⟨bytes, hbytes, tail, htail, rfl⟩ := h
    rw [List.length_append]
    rcases List.mem_cons.mp hfield with rfl | hfield
    · exact ⟨bytes, hbytes, by omega⟩
    · obtain ⟨other, hother, hle⟩ := ih htail hfield
      exact ⟨other, hother, by omega⟩

theorem normalFields?_cons (field : FieldLayout Layout) (rest : List (FieldLayout Layout))
    (names : List String) (record : Record) :
    normalFields? (field :: rest) names record =
      (field.normal? names record).bind fun value =>
        (normalFields? rest names record).map (value :: ·) := by
  obtain ⟨slot, codec⟩ := field
  rw [normalFields?]
  rfl

/-! ## Sizes -/

theorem length_concat? {α : Type} {f : α → Option Bytes} {items : List α} {width : Nat}
    (hf : ∀ a ∈ items, ∀ bytes, f a = some bytes → bytes.length = width) {out : Bytes}
    (h : concat? f items = some out) : out.length = items.length * width := by
  induction items generalizing out with
  | nil =>
    cases h
    simp
  | cons a rest ih =>
    simp only [concat?, Option.bind_eq_some_iff, Option.map_eq_some_iff] at h
    obtain ⟨bytes, hbytes, tail, htail, rfl⟩ := h
    rw [List.length_append, hf a (by simp) bytes hbytes,
      ih (fun b hb => hf b (by simp [hb])) htail, List.length_cons, Nat.succ_mul, Nat.add_comm]

theorem Value.length_scalarBytes? {type : Primitive} {value : Value} {bytes : Bytes}
    (h : value.scalarBytes? type = some bytes) : bytes.length = type.width := by
  unfold Value.scalarBytes? at h
  split at h
  · split at h
    · cases h
      exact Bytes.length_littleEndian _ _
    · cases h
  · cases h

theorem FieldCodec.length_countBytes? {codec : FieldCodec Layout} {count : Nat} {bytes : Bytes}
    (h : codec.countBytes? count = some bytes) :
    codec.span? = none ∧ bytes.length = codec.staticWidth := by
  unfold FieldCodec.countBytes? at h
  split at h
  · split at h
    · cases h
      exact ⟨rfl, Bytes.length_littleEndian _ _⟩
    · cases h
  · cases h

/-- What a serialisation of a layout's body measures, in a layout whose body starts at zero. -/
def Layout.SerialSized (layout : Layout) : Prop :=
  ∀ record bytes, layout.serial? record = some bytes →
    layout.staticSize ≤ layout.start + bytes.length ∧
      (layout.isDynamic = false → layout.start + bytes.length = layout.staticSize)

theorem ElementCodec.length_serial? {element : ElementCodec Layout} (hstrided : element.Strided)
    (hnested : ∀ inner ∈ element.nested, inner.start = 0 ∧ inner.SerialSized) {value : Value}
    {bytes : Bytes} (h : element.serial? value = some bytes) :
    ∃ count, value.length? = some count ∧ bytes.length = count * element.size := by
  cases element with
  | scalar type =>
    cases value with
    | bytes b =>
      cases type <;> simp_all [ElementCodec.serial?, Value.length?, ElementCodec.size, Primitive.width]
    | array items =>
      have hconcat : concat? (Value.scalarBytes? type) items = some bytes := by
        cases type <;> simpa [ElementCodec.serial?] using h
      exact ⟨items.length, rfl, length_concat? (fun _ _ _ => Value.length_scalarBytes?) hconcat⟩
    | _ => cases type <;> simp [ElementCodec.serial?] at h
  | struct layout =>
    obtain ⟨hstart, hsized⟩ := hnested layout (by simp [ElementCodec.nested])
    cases value with
    | array items =>
      rw [ElementCodec.serial?] at h
      refine ⟨items.length, rfl, length_concat? (fun item _ out hout => ?_) h⟩
      obtain ⟨record, -, hrecord⟩ := Option.bind_eq_some_iff.mp hout
      have := (hsized record out hrecord).2 hstrided.1
      rw [ElementCodec.size]
      omega
    | _ => simp [ElementCodec.serial?] at h

theorem TextWidth.length_bytes? {width : TextWidth} {s : String} {bytes : Bytes}
    (h : width.bytes? s = some bytes) :
    ∃ ascii, Value.asciiBytes? s = some ascii ∧
      bytes.length = match width with
        | .fixed capacity => capacity
        | .counted _ => ascii.length + 1 := by
  simp only [TextWidth.bytes?, Option.bind_eq_some_iff] at h
  obtain ⟨ascii, hascii, h⟩ := h
  refine ⟨ascii, hascii, ?_⟩
  split at h
  · split at h
    · cases h
      simp
      omega
    · cases h
  · cases h
    simp

/-- A field takes its fixed width, and where it has no span nothing more. -/
theorem FieldCodec.length_serial? {codec : FieldCodec Layout} (hsized : codec.Sized)
    (hnested : ∀ inner ∈ codec.nested, inner.start = 0 ∧ inner.SerialSized) {value : Value}
    {bytes : Bytes} (h : codec.serial? value = some bytes) :
    codec.staticWidth ≤ bytes.length ∧
      (codec.span? = none → bytes.length = codec.staticWidth) := by
  cases codec with
  | scalar type =>
    rw [FieldCodec.serial?] at h
    have := Value.length_scalarBytes? h
    exact ⟨Nat.le_of_eq this.symm, fun _ => this⟩
  | text width =>
    cases value with
    | text s =>
      rw [FieldCodec.serial?] at h
      obtain ⟨ascii, -, hlength⟩ := TextWidth.length_bytes? h
      cases width <;> simp [FieldCodec.staticWidth, FieldCodec.span?, hlength]
    | _ => simp [FieldCodec.serial?] at h
  | array element length =>
    rw [FieldCodec.serial?] at h
    split at h
    · next hlength =>
      obtain ⟨count, hcount, hbytes⟩ := element.length_serial? hsized.1 hnested h
      rw [hlength, Option.some.injEq] at hcount
      rw [FieldCodec.staticWidth, hbytes, ← hcount, Nat.mul_comm]
      exact ⟨Nat.le_refl _, fun _ => rfl⟩
    · cases h
  | list element source => simp [FieldCodec.staticWidth, FieldCodec.span?]
  | struct layout =>
    obtain ⟨hstart, hserial⟩ := hnested layout (by simp [FieldCodec.nested])
    cases value with
    | record record =>
      rw [FieldCodec.serial?] at h
      obtain ⟨hle, heq⟩ := hserial record bytes h
      rw [hstart, Nat.zero_add] at hle heq
      refine ⟨hle, fun hspan => heq ?_⟩
      simpa [FieldCodec.span?] using hspan
    | _ => simp [FieldCodec.serial?] at h

theorem FieldLayout.length_bytes? {field : FieldLayout Layout} (hsized : field.codec.Sized)
    (hnested : ∀ inner ∈ field.codec.nested, inner.start = 0 ∧ inner.SerialSized)
    {names : List String} {record : Record} {bytes : Bytes}
    (h : field.bytes? names record = some bytes) :
    field.codec.staticWidth ≤ bytes.length ∧
      (field.codec.span? = none → bytes.length = field.codec.staticWidth) := by
  rw [FieldLayout.bytes?] at h
  split at h
  · obtain ⟨count, -, hcount⟩ := Option.bind_eq_some_iff.mp h
    obtain ⟨-, hlength⟩ := FieldCodec.length_countBytes? hcount
    exact ⟨Nat.le_of_eq hlength.symm, fun _ => hlength⟩
  · obtain ⟨value, -, hvalue⟩ := Option.bind_eq_some_iff.mp h
    exact field.codec.length_serial? hsized hnested hvalue

theorem length_serialFields? {fields : List (FieldLayout Layout)} {names : List String}
    {record : Record}
    (hfields : ∀ field ∈ fields, ∀ bytes, field.bytes? names record = some bytes →
      field.codec.staticWidth ≤ bytes.length ∧
        (field.codec.span? = none → bytes.length = field.codec.staticWidth))
    {out : Bytes} (h : serialFields? fields names record = some out) :
    (fields.map (·.codec.staticWidth)).sum ≤ out.length ∧
      ((∀ field ∈ fields, field.codec.span? = none) →
        out.length = (fields.map (·.codec.staticWidth)).sum) := by
  induction fields generalizing out with
  | nil =>
    cases h
    simp
  | cons field rest ih =>
    simp only [serialFields?_cons, Option.bind_eq_some_iff, Option.map_eq_some_iff] at h
    obtain ⟨bytes, hbytes, tail, htail, rfl⟩ := h
    obtain ⟨hle, heq⟩ := hfields field (by simp) bytes hbytes
    obtain ⟨hrestLe, hrestEq⟩ := ih (fun other hother => hfields other (by simp [hother])) htail
    simp only [List.map_cons, List.sum_cons, List.length_append]
    refine ⟨by omega, fun hspans => ?_⟩
    rw [heq (hspans field (by simp)), hrestEq fun other hother => hspans other (by simp [hother])]

namespace Layout

/-- A serialisation has the fixed size of its layout at least, and exactly where nothing is of
variable length. -/
theorem WellFormed.length_serial {layout : Layout} (h : layout.WellFormed) :
    layout.SerialSized := by
  induction h with
  | @intro layout coherent _ ih =>
    intro record bytes hbytes
    rw [serial?_eq] at hbytes
    have hfields := length_serialFields? (fun field hfield out hout =>
      field.length_bytes? (coherent.sized field hfield) (fun inner hinner =>
        have hmem := mem_nested hfield hinner
        ⟨coherent.starts inner hmem, ih inner hmem⟩) hout) hbytes
    have hstatic : layout.staticSize =
        layout.start + (layout.fields.map (·.codec.staticWidth)).sum := coherent.tiled.constant_eq
    refine ⟨by omega, fun hdynamic => ?_⟩
    rw [hfields.2 (coherent.span?_eq_none hdynamic), hstatic]

end Layout

end PacketWire
