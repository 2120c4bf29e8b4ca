import PacketWire.Proofs.Codec.Alike
import PacketWire.Proofs.Packet.Bounds

/-!
# Encoding ignores what it derives

Writing consults a record only for the fields that count nothing; a size field is written from the
plan. So records that a layout cannot tell apart give the same packet or the same fault. A byte
string is written in one piece and an array of bytes one by one, which are the same only where the
buffer has room: two computations are compared where no access of theirs leaves the buffer, and that
is everywhere a packet is encoded.

* `Write.Matches`: two computations do the same wherever they stay in the buffer.
* `Layout.WellFormed.write_alike`: alike records are written alike.
* `PacketSchema.encode_eq_of_alike`: alike records have one length and one encoding.
-/

namespace PacketWire

namespace Write

/-- Two computations do the same to every buffer that no access of theirs leaves. -/
def Matches {α : Type} (w w' : Write α) : Prop :=
  ∀ buf, w.BlamesInput buf → w'.BlamesInput buf → w buf = w' buf

section

variable {α β : Type}

theorem Matches.refl (w : Write α) : Matches w w := fun _ _ _ => rfl

theorem Matches.symm {w w' : Write α} (h : Matches w w') : Matches w' w := by
  intro buf hw' hw
  exact (h buf hw hw').symm

theorem BlamesInput.first {w : Write α} {f : α → Write β} {buf : Bytes}
    (h : BlamesInput (w >>= f) buf) : BlamesInput w buf := by
  intro fault buf' hrun
  refine h fault buf' ?_
  rw [bind_apply, hrun]

theorem BlamesInput.second {w : Write α} {f : α → Write β} {buf buf' : Bytes} {a : α}
    (h : BlamesInput (w >>= f) buf) (hw : w buf = .ok a buf') : BlamesInput (f a) buf' := by
  intro fault last hrun
  refine h fault last ?_
  rw [bind_apply, hw]
  exact hrun

theorem Matches.bind {w w' : Write α} {f f' : α → Write β} (h : Matches w w')
    (hf : ∀ a, Matches (f a) (f' a)) : Matches (w >>= f) (w' >>= f') := by
  intro buf hleft hright
  have hsame := h buf hleft.first hright.first
  rw [bind_apply, bind_apply, ← hsame]
  cases hw : w buf with
  | error fault buf' => rfl
  | ok a buf' => exact hf a buf' (hleft.second hw) (hright.second (hsame ▸ hw))

theorem matches_lift {e : Except CodecError α} {f f' : α → Write β}
    (hf : ∀ a, e = .ok a → Matches (f a) (f' a)) : Matches (lift e >>= f) (lift e >>= f') := by
  cases e with
  | error fault => exact .refl _
  | ok a => exact hf a rfl

/-- Items that are written alike one by one, at the multiples of a stride. -/
theorem matches_forM {w : α → Nat → Write Unit} {R : α → α → Prop} {as bs : List α}
    (h : List.Forall₂ R as bs) (hw : ∀ a b p, R a b → Matches (w a p) (w b p))
    (position stride index : Nat) :
    Matches ((as.zipIdx index).forM fun (a, k) => w a (position + k * stride))
      ((bs.zipIdx index).forM fun (b, k) => w b (position + k * stride)) := by
  induction h generalizing index with
  | nil => exact .refl _
  | cons hfirst _ ih => exact (hw _ _ _ hfirst).bind fun _ => ih (index + 1)

end

/-! ## Scalars, texts and bytes -/

theorem scalar_of_refused {type : Primitive} {v : Value} (h : ¬(FieldCodec.scalar type).Takes v)
    (field : String) (position : Nat) :
    scalar field type v position = (do
      window position type.width
      throw (v.mismatch field type.name)) := by
  cases v with
  | scalar s =>
    have htype : ¬s.type = type := h
    simp only [scalar, if_neg htype]
  | _ => rfl

theorem scalar_alike {type : Primitive} {v w : Value} (h : (FieldCodec.scalar type).Alike v w)
    (field : String) (position : Nat) :
    scalar field type v position = scalar field type w position := by
  cases h with
  | same => rfl
  | refused left right kind =>
    rw [scalar_of_refused left, scalar_of_refused right, Value.mismatch_eq kind]

theorem textBytes_of_refused {width : TextWidth} {v : Value}
    (h : ¬(FieldCodec.text width).Takes v) (field : String) :
    textBytes field v = .error (v.mismatch field "string") := by
  cases v with
  | text s => exact absurd trivial h
  | _ => rfl

theorem textBytes_alike {width : TextWidth} {v w : Value} (h : (FieldCodec.text width).Alike v w)
    (field : String) : textBytes field v = textBytes field w := by
  cases h with
  | same => rfl
  | refused left right kind =>
    rw [textBytes_of_refused left, textBytes_of_refused right, Value.mismatch_eq kind]

/-- A window that is filled with known bytes. -/
theorem Fills.apply {w : Write Unit} {position width : Nat} {src buf : Bytes}
    (h : Fills w position width (some src)) (hroom : position + width ≤ buf.length) :
    w buf = .ok () (buf.overwrite position src) := by
  obtain ⟨found, -, hrun⟩ := h buf hroom
  cases hw : w buf with
  | ok _ buf' =>
    rw [hw] at hrun
    obtain ⟨hout, rfl⟩ := hrun
    cases hout
    rfl
  | error fault buf' =>
    rw [hw] at hrun
    cases hrun.1.1

theorem serial?_map_u8 (b : Bytes) :
    ElementCodec.serial? (.scalar .u8) (.array (b.map Value.u8)) = some b := by
  rw [ElementCodec.serial?]
  induction b with
  | nil => rfl
  | cons byte b ih =>
    rw [List.map_cons, concat?, ih]
    have hbyte : Value.scalarBytes? .u8 (.u8 byte) = some [byte] := by
      show some [UInt8.ofNat byte.toNat] = _
      rw [UInt8.ofNat_toNat]
    rw [hbyte]
    rfl

/-- A byte string is written in one piece and an array of bytes one by one: where there is room, the
same bytes are left behind. -/
theorem matches_bytes (field : String) (b : Bytes) (position : Nat) :
    Matches (scalars field .u8 (.bytes b) position)
      (scalars field .u8 (.array (b.map Value.u8)) position) := by
  intro buf hstays _
  have hroom : position + b.length ≤ buf.length := by
    by_contra hshort
    have hfault : scalars field .u8 (.bytes b) position buf = .error .outOfBounds buf := by
      show put position b buf = _
      rw [put_apply, Bytes.splice?, if_neg hshort]
    exact hstays _ _ hfault .outOfBounds
  have hpiece : Fills (scalars field .u8 (.bytes b) position) position b.length (some b) :=
    fills_put position b
  have hitems : Fills (scalars field .u8 (.array (b.map Value.u8)) position) position b.length
      (some b) := by
    rw [← serial?_map_u8 b]
    apply fills_scalars
    intro n hn
    cases hn
    rw [List.length_map, Primitive.width, Nat.mul_one]
  rw [hpiece.apply hroom, hitems.apply hroom]

end Write

/-! ## Fields -/

namespace Layout

open Write

/-- Alike records are written alike by the plan that they have in common. -/
def WritesAlike (layout : Layout) : Prop :=
  ∀ a b p base, layout.Alike a b → layout.plan a = .ok p →
    Matches (layout.write a p base) (layout.write b p base)

theorem matches_struct {layout : Layout} (hplans : layout.PlansAlike) (hwrites : layout.WritesAlike)
    {v w : Value} (h : (FieldCodec.struct layout).Alike v w) (field : String) (position : Nat) :
    Matches
      (do
        let inner ← lift (v.asRecord field)
        let p ← lift (layout.plan inner)
        layout.write inner p position)
      (do
        let inner ← lift (w.asRecord field)
        let p ← lift (layout.plan inner)
        layout.write inner p position) := by
  rcases h.struct_cases with ⟨a, b, rfl, rfl, hinner⟩ | hfault
  · show Matches (lift (layout.plan a) >>= _) (lift (layout.plan b) >>= _)
    rw [← hplans a b hinner]
    exact matches_lift fun p hp => hwrites a b p position hinner hp
  · obtain ⟨fault, hv, hw⟩ := hfault field
    rw [hv, hw]
    exact .refl _

theorem writeElements_of_refused {element : ElementCodec Layout} {source : Nat} {v : Value}
    (h : ¬(FieldCodec.list element source).Takes v) (field : String) (position : Nat) :
    writeElements element field v position = throw (v.mismatch field "array") := by
  cases v with
  | bytes b => exact absurd trivial h
  | array items => exact absurd trivial h
  | _ =>
    cases element with
    | scalar type =>
      rw [writeElements]
      cases type <;> rfl
    | struct layout =>
      rw [writeElements]
      intro items hitems
      cases hitems

section

variable {element : ElementCodec Layout}
  (hnested : ∀ inner ∈ element.nested, inner.PlansAlike ∧ inner.WritesAlike)
include hnested

theorem matches_elements {v w : Value} (h : element.Alike v w) (field : String) (position : Nat) :
    Matches (writeElements element field v position) (writeElements element field w position) := by
  cases h with
  | @items _ as bs length each =>
    have hitems : List.Forall₂ (FieldCodec.Alike element.single) as bs :=
      List.forall₂_iff_zip.mpr ⟨length, fun hpair => each _ _ hpair⟩
    cases element with
    | scalar type =>
      have heach : ∀ v w p, (FieldCodec.scalar type).Alike v w →
          Matches (scalar field type v p) (scalar field type w p) := by
        intro v w p hsame
        rw [scalar_alike hsame]
        exact .refl _
      rw [writeElements, writeElements, scalars_array, scalars_array]
      exact matches_forM hitems heach position type.width 0
    | struct layout =>
      obtain ⟨hplans, hwrites⟩ := hnested layout (by simp [ElementCodec.nested])
      have heach := fun v w p (hsame : (FieldCodec.struct layout).Alike v w) =>
        matches_struct hplans hwrites hsame field p
      rw [writeElements, writeElements]
      exact matches_forM hitems heach position layout.staticSize 0
  | toBytes b =>
    rw [writeElements, writeElements]
    exact (matches_bytes field b position).symm
  | ofBytes b =>
    rw [writeElements, writeElements]
    exact matches_bytes field b position

theorem matches_list {source : Nat} {v w : Value} (h : (FieldCodec.list element source).Alike v w)
    (field : String) (position : Nat) :
    Matches (writeElements element field v position) (writeElements element field w position) := by
  cases h with
  | same => exact .refl _
  | refused left right kind =>
    rw [writeElements_of_refused left, writeElements_of_refused right, Value.mismatch_eq kind]
    exact .refl _
  | list elements => exact matches_elements hnested elements field position

end

variable {a b : Record}

theorem matches_require {codec : FieldCodec Layout} {name : String}
    (h : Option.Rel codec.Alike (a.get? name) (b.get? name)) {f : Value → Write Unit}
    (hf : ∀ v w, codec.Alike v w → Matches (f v) (f w)) :
    Matches (lift (a.require name) >>= f) (lift (b.require name) >>= f) := by
  rcases Record.require_cases h with ⟨fault, ha, hb⟩ | ⟨v, w, ha, hb, hsame⟩
  · rw [ha, hb]
    exact .refl _
  · rw [ha, hb]
    exact hf v w hsame

theorem matches_field {codec : FieldCodec Layout}
    (hnested : ∀ inner ∈ codec.nested, inner.PlansAlike ∧ inner.WritesAlike) {slot : Slot}
    (h : Option.Rel codec.Alike (a.get? slot.name) (b.get? slot.name)) (names : List String)
    (count : Option Nat) (position : Nat) :
    Matches (writeField codec slot names a count position)
      (writeField codec slot names b count position) := by
  cases codec with
  | scalar type =>
    cases count with
    | some n =>
      rw [writeField, writeField]
      exact .refl _
    | none =>
      rw [writeField, writeField]
      refine matches_require h fun v w hsame => ?_
      rw [scalar_alike hsame]
      exact .refl _
  | text width =>
    rw [writeField, writeField]
    refine matches_require h fun v w hsame => ?_
    rw [text, text, textBytes_alike hsame]
    exact .refl _
  | array element length =>
    rw [writeField, writeField]
    refine matches_require h fun v w hsame => ?_
    rw [Codec.arrayLength_alike (hsame.list_of_array 0)]
    refine matches_lift fun found _ => ?_
    by_cases hlength : found = length
    · rw [if_pos hlength, if_pos hlength]
      exact matches_list hnested (hsame.list_of_array 0) slot.name position
    · rw [if_neg hlength, if_neg hlength]
      exact .refl _
  | list element source =>
    rw [writeField, writeField]
    exact matches_require h fun v w hsame => matches_list hnested hsame slot.name position
  | struct layout =>
    obtain ⟨hplans, hwrites⟩ := hnested layout (by simp [FieldCodec.nested])
    rw [writeField, writeField]
    exact matches_require h fun v w hsame => matches_struct hplans hwrites hsame slot.name position

/-- A size field that has a count is written without a look at the record, and any other field
alike. -/
theorem matches_fields {layout : Layout} (coherent : layout.Coherent)
    (hnested : ∀ inner ∈ layout.nested, inner.PlansAlike ∧ inner.WritesAlike)
    (halike : layout.Alike a b) {p : Plan}
    (hcounts : ∀ (i : Nat) (field : FieldLayout Layout), layout.fields[i]? = some field →
      field.isSizeField = true → p.counts.lookup i ≠ none)
    {done fields : List (FieldLayout Layout)} (hfields : layout.fields = done ++ fields)
    (names : List String) (base : Nat) :
    Matches (writeFields fields names a p base done.length)
      (writeFields fields names b p base done.length) := by
  induction fields generalizing done with
  | nil =>
    rw [writeFields, writeFields]
    exact .refl _
  | cons field fields ih =>
    have hmem : field ∈ layout.fields := by simp [hfields]
    have hget : layout.fields[done.length]? = some field := by simp [hfields]
    have hrest : Matches (writeFields fields names a p base (done.length + 1))
        (writeFields fields names b p base (done.length + 1)) := by
      have hsplit : layout.fields = (done ++ [field]) ++ fields := by simp [hfields]
      have hlater := ih hsplit
      rwa [List.length_append, List.length_singleton] at hlater
    rw [writeFields_cons, writeFields_cons]
    refine matches_lift fun position _ => Matches.bind ?_ fun _ => hrest
    cases hsize : field.isSizeField with
    | true =>
      obtain ⟨type, htype⟩ := coherent.codec_of_mem hmem hsize
      cases hcount : p.counts.lookup done.length with
      | none => exact absurd hcount (hcounts _ field hget hsize)
      | some n =>
        rw [htype, writeField, writeField]
        exact .refl _
    | false =>
      exact matches_field (fun inner hinner => hnested inner (mem_nested hmem hinner))
        (alike_iff.mp halike field hmem hsize) names _ position

/-- Alike records are written alike. -/
theorem WellFormed.write_alike {layout : Layout} (h : layout.WellFormed) : layout.WritesAlike := by
  induction h with
  | @intro layout coherent hwell ih =>
    intro a b p base halike hplan
    obtain ⟨-, hclaims, -, -⟩ := plan_eq_ok hplan
    rw [write_eq, write_eq]
    refine Matches.bind (.refl _) fun _ => ?_
    exact matches_fields coherent
      (fun inner hinner => ⟨(hwell inner hinner).plan_alike, ih inner hinner⟩) halike
      (fun i field hfield => (lookup_counts coherent hclaims hfield).2) (List.nil_append _).symm
      (layout.fields.map (·.name)) base

end Layout

/-! ## Packets -/

namespace Descriptor

variable {d : Descriptor} {a b : Record} (h : d.Sound) (halike : d.layout.Alike a b)
include h halike

theorem encodedLength_alike : d.encodedLength a = d.encodedLength b := by
  unfold encodedLength Layout.encodedLength
  rw [h.wellFormed.plan_alike a b halike]

/-- Alike records are written alike at any position of any buffer. -/
theorem encodeInto_alike {position : Nat}
    (hlt : ∀ n, d.layout.encodedLength a = .ok n →
      position + (n + d.trailerLength) < Size.limit) :
    d.encodeInto a position = d.encodeInto b position := by
  have hplan := h.wellFormed.plan_alike a b halike
  have hlength : d.layout.encodedLength b = d.layout.encodedLength a := by
    unfold Layout.encodedLength
    rw [hplan]
  have hmatches : Write.Matches (d.encodeInto a position) (d.encodeInto b position) := by
    cases hp : d.layout.plan a with
    | error fault =>
      unfold encodeInto
      rw [← hplan, hp]
      exact .refl _
    | ok p =>
      rw [encodeInto_eq hp, encodeInto_eq (hplan ▸ hp)]
      refine .bind (.refl _) fun _ => .bind ?_ fun _ => .refl _
      refine .bind (.refl _) fun _ => .bind (.refl _) fun _ => .bind ?_ fun _ => .refl _
      exact h.wellFormed.write_alike a b p position halike hp
  funext buf
  refine hmatches buf (encodeInto_blamesInput h hlt buf) (encodeInto_blamesInput h ?_ buf)
  rw [hlength]
  exact hlt

theorem encode_alike : d.encode a = d.encode b := by
  unfold encode
  rw [← encodedLength_alike h halike]
  cases hlength : d.encodedLength a with
  | error fault => rfl
  | ok n =>
    obtain ⟨p, hplan, htotal, hlt⟩ := encodedLength_eq_ok_iff.mp hlength
    have hsame : d.encodeInto a 0 = d.encodeInto b 0 := by
      apply encodeInto_alike h halike
      intro m hm
      obtain ⟨q, hq, hmq⟩ := bind_eq_ok_iff.mp hm
      rw [hplan] at hq
      cases hq
      cases hmq
      omega
    rw [hsame]

end Descriptor

namespace PacketSchema

variable {schema : PacketSchema} {table : TypeTable} {d : Descriptor}

/-- Two records that hold the same for every field of a compiled schema that counts nothing, at
every depth, have one length and one encoding, the same bytes or the same fault: whatever they hold
for size fields, whatever else they hold, and in whatever order. -/
theorem encode_eq_of_alike (hcompile : schema.compile table = .ok d) {a b : Record}
    (halike : d.layout.Alike a b) :
    d.encodedLength a = d.encodedLength b ∧ d.encode a = d.encode b := by
  have hsound := (compile_ok hcompile).sound
  exact ⟨Descriptor.encodedLength_alike hsound halike, Descriptor.encode_alike hsound halike⟩

/-- A text where the count of two arrays would stand, and the record as a reader gets to see it,
with counts in place, its flags a byte string and no extra field. -/
theorem encode_inventory_alike : ∃ d normal, Inventory.schema.compile Inventory.types = .ok d ∧
    d.layout.normal? Inventory.record = some normal ∧
      d.encode (Inventory.record.set "count" (.text "two")) = .ok Inventory.packet ∧
      d.encode normal = .ok Inventory.packet := by
  obtain ⟨d, hcompile, hencode⟩ := Inventory.encodes
  have hwell := (compile_ok hcompile).sound.wellFormed
  have hcount : (Inventory.schema.compile Inventory.types).toOption.map (fun d =>
      d.layout.fields.all fun field => field.isSizeField || field.name != "count") = some true := by
    decide +kernel
  rw [hcompile, Except.toOption, Option.map_some, Option.some.injEq, List.all_eq_true] at hcount
  have hset : d.layout.Alike (Inventory.record.set "count" (.text "two")) Inventory.record := by
    refine Layout.alike_set _ ?_ _
    intro field hfield hsize
    simpa [hsize] using hcount field hfield
  obtain ⟨-, -, normal, hnormal, -⟩ := decode_encode hcompile hencode
  have hwhole := hwell.alike_normal _ _ hnormal
  refine ⟨d, normal, hcompile, hnormal, ?_, ?_⟩
  · rw [(encode_eq_of_alike hcompile hset).2, hencode]
  · rw [← (encode_eq_of_alike hcompile hwhole).2, hencode]

end PacketSchema

end PacketWire
