import PacketWire.Proofs.Layout.Construction

/-!
# Where fields begin and end

Every field of a compiled layout begins where the field before it ends, whatever run-time spans it
is evaluated with. The boundaries between fields are sums of run-time spans and a constant, and
the spans of later fields have no part in them.

* `Layout.position`: the boundaries as numbers, one field after another.
* `Tiled.drop`: at every boundary the fields behind it are tiled.
* `Layout.Tiles.total_boundary`: the boundaries have these numbers for their exact sums.
* `Compile.Returns.carrier`: a run-time count comes from an earlier integer field.
* `Compile.fields_tile`: so it is in all that compiling a list of fields gives.
-/

namespace PacketWire

/-- Bytes that a field takes under a run-time span, which counts only where the field has one. -/
def FieldCodec.taken (codec : FieldCodec Layout) (span : Nat) : Nat :=
  codec.staticWidth + if codec.span?.isSome then span else 0

namespace Layout

/-- The offsets of the fields, and the end of the last one. -/
def boundaries (layout : Layout) : List Offset := layout.fields.map (·.offset) ++ [layout.stop]

/-- Where the field at an index begins: the first one at the start of the layout, and every other
one behind the field before it. -/
def position (layout : Layout) (spans : List Nat) : Nat → Nat
  | 0 => layout.start
  | i + 1 => layout.position spans i +
      match layout.fields[i]? with
      | some field => field.codec.taken (spans.getD i 0)
      | none => 0

/-- The fields stand one behind the other, from the start of the layout to its end. -/
def Tiles (layout : Layout) : Prop := Tiled 0 ⟨layout.start, []⟩ layout.fields layout.stop

theorem position_succ {layout : Layout} {i : Nat} {field : FieldLayout Layout}
    (hfield : layout.fields[i]? = some field) (spans : List Nat) :
    layout.position spans (i + 1) =
      layout.position spans i + field.codec.taken (spans.getD i 0) := by
  rw [position, hfield]

/-- A boundary is where it is by the spans of the fields before it. -/
theorem position_congr (layout : Layout) {spans other : List Nat} {i : Nat}
    (h : spans.take i = other.take i) : layout.position spans i = layout.position other i := by
  induction i with
  | zero => rfl
  | succ i ih =>
    have hbefore : spans.take i = other.take i := by
      have := congrArg (List.take i) h
      rwa [List.take_take, List.take_take, Nat.min_eq_left (Nat.le_succ i)] at this
    have hhere : spans[i]? = other[i]? := by
      have := congrArg (·[i]?) h
      simpa using this
    rw [position, position, ih hbefore, List.getD_eq_getElem?_getD, List.getD_eq_getElem?_getD,
      hhere]

end Layout

/-! ## Boundaries of tiled fields -/

/-- Stepping over a field adds what the field takes. -/
theorem Offset.total_behind (offset : Offset) (index : Nat) (codec : FieldCodec Layout)
    (label : String) (spans : List Nat) :
    (offset.behind index codec label).total spans =
      offset.total spans + codec.taken (spans.getD index 0) := by
  simp only [total, behind, spanSum_append, FieldCodec.taken]
  cases codec.span? with
  | none =>
    simp only [Option.map_none, Option.toList_none, spanSum, Option.isSome_none, Bool.false_eq_true,
      if_false]
    omega
  | some span =>
    simp only [Option.map_some, Option.toList_some, spanSum, Term.span, Option.isSome_some, if_true]
    omega

/-- The fields behind a boundary are tiled from there on. -/
theorem Tiled.drop {index : Nat} {start stop : Offset} {fields : List (FieldLayout Layout)}
    (h : Tiled index start fields stop) {i : Nat} {offset : Offset}
    (hoffset : (fields.map (·.offset) ++ [stop])[i]? = some offset) :
    Tiled (index + i) offset (fields.drop i) stop := by
  induction h generalizing i with
  | nil index stop =>
    cases i with
    | zero =>
      cases hoffset
      exact .nil _ _
    | succ i => simp at hoffset
  | cons label htail ih =>
    cases i with
    | zero =>
      cases hoffset
      exact .cons label htail
    | succ i =>
      have hrest := ih hoffset
      rwa [Nat.add_right_comm] at hrest

/-- Fields that are tiled begin where they are tiled from. -/
theorem Tiled.boundary_zero {index : Nat} {start stop : Offset} {fields : List (FieldLayout Layout)}
    (h : Tiled index start fields stop) :
    (fields.map (·.offset) ++ [stop])[0]? = some start := by
  cases h <;> rfl

/-- Where the fields behind a field begin. -/
theorem Tiled.eq_behind {index : Nat} {start next stop : Offset} {field : FieldLayout Layout}
    {rest : List (FieldLayout Layout)} (h : Tiled index start (field :: rest) stop)
    (hrest : Tiled (index + 1) next rest stop) :
    ∃ label, next = start.behind index field.codec label := by
  cases h with
  | cons label htail =>
    refine ⟨label, Option.some.inj ?_⟩
    rw [← hrest.boundary_zero, ← htail.boundary_zero]

namespace Layout.Tiles

variable {layout : Layout} (h : layout.Tiles)
include h

theorem staticSize_eq :
    layout.staticSize = layout.start + (layout.fields.map (·.codec.staticWidth)).sum :=
  h.constant_eq

/-- The exact sum of a boundary is its place behind the fields before it. -/
theorem total_boundary (spans : List Nat) {i : Nat} {offset : Offset}
    (hoffset : layout.boundaries[i]? = some offset) :
    offset.total spans = layout.position spans i := by
  induction i generalizing offset with
  | zero =>
    have hstart : some offset = some ⟨layout.start, []⟩ := hoffset ▸ h.boundary_zero
    cases hstart
    exact Offset.total_start layout.start spans
  | succ i ih =>
    have hlt : i < layout.fields.length := by
      have := (List.getElem?_eq_some_iff.mp hoffset).1
      simpa [boundaries] using this
    have hfield := List.getElem?_eq_getElem hlt
    have hbefore : layout.boundaries[i]? = some layout.fields[i].offset := by
      rw [boundaries, List.getElem?_append_left (by simpa using hlt), List.getElem?_map, hfield]
      rfl
    have htiled := h.drop hbefore
    rw [List.drop_eq_getElem_cons hlt, Nat.zero_add] at htiled
    have hrest := h.drop hoffset
    rw [Nat.zero_add] at hrest
    obtain ⟨label, rfl⟩ := htiled.eq_behind hrest
    rw [Offset.total_behind, ih hbefore, position_succ hfield]

/-- A boundary whose fixed part is a size has its place for its value where that is a size, and no
value where it is none. -/
theorem eval?_boundary (spans : List Nat) {i : Nat} {offset : Offset}
    (hoffset : layout.boundaries[i]? = some offset) (hconstant : offset.constant < Size.limit) :
    offset.eval? spans =
      if layout.position spans i < Size.limit then some (layout.position spans i) else none := by
  have hsome : ∀ n, offset.eval? spans = some n ↔
      layout.position spans i = n ∧ n < Size.limit := fun n => by
    rw [Offset.eval?_eq_some_iff spans hconstant, h.total_boundary spans hoffset]
  split
  · next hlt => exact (hsome _).mpr ⟨rfl, hlt⟩
  · next hge =>
    rw [Option.eq_none_iff_forall_ne_some]
    rintro n hn
    obtain ⟨rfl, hlt⟩ := (hsome n).mp hn
    exact hge hlt

end Layout.Tiles

/-! ## Counts -/

/-- A codec has a source where its span is a count. -/
theorem FieldCodec.source?_eq_some_iff {codec : FieldCodec Layout} {source : Nat} :
    codec.source? = some source ↔ ∃ scale, codec.span? = some (.counted source scale) := by
  unfold source?
  split
  · next found scale hspan => simp [hspan]
  · next hspan =>
    simp only [reduceCtorEq, false_iff, not_exists]
    exact fun scale => hspan source scale

namespace Compile

section Field

variable {owner : String} {field : Field} {found : FieldCodec Layout} {i : Nat}

theorem source?_of_collection {element : ElementCodec Layout} {length source : Option Nat}
    (h : collection owner field element length source = .ok found)
    (hsource : found.source? = some i) : source = some i := by
  rcases collection_ok h with ⟨n, -, -, rfl⟩ | ⟨-, j, hj, rfl⟩
  · cases hsource
  · rw [hj]
    exact hsource

/-- The source that a codec counts by is the one it is compiled with. -/
theorem Returns.source?_codec {nested : String → Compile Layout} {source : Option Nat}
    (h : Returns (Compile.codec nested owner field source) found)
    (hsource : found.source? = some i) : source = some i := by
  unfold Compile.codec at h
  cases hkind : field.kind with
  | scalar type =>
    rw [hkind] at h
    cases Returns.pure h
    cases hsource
  | enumeration name repr =>
    rw [hkind] at h
    dsimp only at h
    split at h
    · cases Returns.pure h
      cases hsource
    · exact absurd h not_returns_throw
  | text =>
    rw [hkind] at h
    obtain ⟨width, hwidth, h⟩ := h.bind
    cases Returns.pure h
    rcases text_ok hwidth.lift with ⟨bytes, -, -, rfl⟩ | ⟨-, j, hj, rfl⟩
    · cases hsource
    · rw [hj]
      exact hsource
  | array kind =>
    rw [hkind] at h
    obtain ⟨element, -, h⟩ := h.bind
    exact source?_of_collection h.lift hsource
  | list kind =>
    rw [hkind] at h
    obtain ⟨element, -, h⟩ := h.bind
    exact source?_of_collection h.lift hsource
  | struct type =>
    rw [hkind] at h
    obtain ⟨layout, -, h⟩ := h.bind
    cases Returns.pure h
    rw [FieldCodec.source?_struct] at hsource
    cases hsource

/-- A field that may count others is written as an integer. -/
theorem Returns.codec_of_counter? {nested : String → Compile Layout} {source : Option Nat}
    (h : Returns (Compile.codec nested owner field source) found) {type : Primitive}
    (hcounter : field.kind.counter? = some type) :
    found = .scalar type ∧ type.isInteger = true := by
  unfold Compile.codec at h
  cases hkind : field.kind with
  | scalar own =>
    rw [hkind] at h hcounter
    cases Returns.pure h
    simp only [FieldKind.counter?, Option.ite_none_right_eq_some, Option.some.injEq] at hcounter
    exact ⟨by rw [hcounter.2], hcounter.2 ▸ hcounter.1⟩
  | enumeration name own =>
    rw [hkind] at h hcounter
    simp only [FieldKind.counter?, Option.ite_none_right_eq_some, Option.some.injEq] at hcounter
    dsimp only at h
    rw [if_pos hcounter.1] at h
    cases Returns.pure h
    exact ⟨by rw [hcounter.2], hcounter.2 ▸ hcounter.1⟩
  | _ =>
    rw [hkind] at hcounter
    cases hcounter

variable {nested : String → String → Compile Layout} {ordered : List Field} {index : Nat}

/-- The codec of a field is compiled with the carrier of its length, if it names one. -/
theorem Returns.exists_codec
    (h : Returns (Compile.fieldCodec nested owner ordered index field) found) :
    ∃ source, SourceFound ordered index field source ∧
      Returns (Compile.codec (nested field.name) owner field source) found := by
  unfold Compile.fieldCodec at h
  cases hsized : field.sizedBy with
  | none =>
    rw [hsized] at h
    obtain ⟨source, hsource, h⟩ := h.bind
    cases Returns.pure hsource
    exact ⟨none, by simp [SourceFound], h⟩
  | some sizeField =>
    rw [hsized] at h
    obtain ⟨source, hsource, h⟩ := h.bind
    rw [map_eq_pure_bind] at hsource
    obtain ⟨carrier, hcarrier, hsource⟩ := hsource.bind
    cases Returns.pure hsource
    refine ⟨some carrier, ?_, h⟩
    simp only [SourceFound, Option.some.injEq, forall_eq']
    exact resolveSource_ok hsized hcarrier.lift

end Field

/-! ## Lists of fields -/

section Fields

variable {nested : String → String → Compile Layout} {owner : String} {declared : List Field}
  {start : Nat} {layout : Layout} (h : Returns (Compile.fields nested owner declared start) layout)
include h

theorem Returns.tiles : layout.start = start ∧ layout.Tiles := by
  obtain ⟨ordered, codecs, -, -, hlength, -, rfl⟩ := h.fields
  have hoffsets := length_offsets hlength (ordered.map (·.name)) (Cursor.start start)
  exact ⟨rfl, tiled_placeAll _ codecs 0 (Cursor.start start) _ (map_offset_slots hoffsets)⟩

theorem Returns.mem_dependents_iff {source : Nat} {carrier : FieldLayout Layout}
    (hcarrier : layout.fields[source]? = some carrier) (j : Nat) :
    j ∈ carrier.dependents ↔ ∃ (field : FieldLayout Layout) (scale : Nat),
      layout.fields[j]? = some field ∧ field.codec.span? = some (.counted source scale) := by
  obtain ⟨ordered, codecs, -, -, hlength, -, rfl⟩ := h.fields
  obtain ⟨-, hdependents, -⟩ := getElem?_assemble hcarrier
  have hcodec : codecs[j]? =
      (assemble owner declared ordered start codecs).fields[j]?.map (·.codec) := by
    rw [← List.getElem?_map, map_codec_assemble hlength]
  rw [hdependents, mem_dependentsOf_iff, hcodec]
  simp [FieldCodec.source?_eq_some_iff]

theorem Returns.carrier {j source : Nat} {field : FieldLayout Layout}
    (hfield : layout.fields[j]? = some field) (hsource : field.codec.source? = some source) :
    source < j ∧ ∃ (carrier : FieldLayout Layout) (type : Primitive),
      layout.fields[source]? = some carrier ∧ carrier.codec = .scalar type ∧
        type.isInteger = true := by
  obtain ⟨ordered, codecs, -, -, hlength, heach, rfl⟩ := h.fields
  obtain ⟨hcodec, -, declaration, hdeclaration, -⟩ := getElem?_assemble hfield
  obtain ⟨carried, hfound, hreturns⟩ := (heach j _ _ hdeclaration hcodec).exists_codec
  obtain ⟨hlt, -, counter, type, hcounter, hinteger⟩ :=
    hfound source (hreturns.source?_codec hsource)
  -- the field of the layout at the place of the declared counter
  have hplace : source < (assemble owner declared ordered start codecs).fields.length := by
    rw [length_assemble hlength]
    exact (List.getElem?_eq_some_iff.mp hcounter).1
  have hcarrier := List.getElem?_eq_getElem hplace
  obtain ⟨hcarried, -⟩ := getElem?_assemble hcarrier
  obtain ⟨_, -, hscalar⟩ := (heach source _ _ hcounter hcarried).exists_codec
  exact ⟨hlt, _, type, hcarrier, hscalar.codec_of_counter? hinteger⟩

end Fields

/-- A layout that a list of fields compiles to is tiled from where it starts, whatever the structs
inside it compile to. Under any run-time spans, each boundary between two fields has the place
behind the fields before it for its exact sum, and for its value as long as that is a size; later
spans have no part in it. The dependents of a field are those that it counts, which come behind it,
and it is an integer then. -/
theorem fields_tile {nested : String → String → Compile Layout} {owner : String}
    {declared : List Field} {start : Nat} {layout : Layout} {cache later : LayoutCache}
    (h : (fields nested owner declared start).run cache = .ok layout later) :
    layout.start = start ∧
      layout.staticSize = start + (layout.fields.map (·.codec.staticWidth)).sum ∧
      (∀ (i : Nat) (offset : Offset), layout.boundaries[i]? = some offset →
        ∀ spans : List Nat, offset.total spans = layout.position spans i ∧
          (offset.constant < Size.limit →
            (layout.position spans i < Size.limit →
              offset.eval? spans = some (layout.position spans i)) ∧
            (offset.eval? spans = none ↔ Size.limit ≤ layout.position spans i) ∧
            ∀ other : List Nat, spans.take i = other.take i →
              offset.eval? spans = offset.eval? other)) ∧
      (∀ (s : Nat) (carrier : FieldLayout Layout), layout.fields[s]? = some carrier →
        ∀ j, j ∈ carrier.dependents ↔ ∃ (field : FieldLayout Layout) (scale : Nat),
          layout.fields[j]? = some field ∧ field.codec.span? = some (.counted s scale)) ∧
      ∀ (j : Nat) (field : FieldLayout Layout) (s scale : Nat), layout.fields[j]? = some field →
        field.codec.span? = some (.counted s scale) →
        s < j ∧ ∃ (carrier : FieldLayout Layout) (type : Primitive),
          layout.fields[s]? = some carrier ∧ carrier.codec = .scalar type ∧
            type.isInteger = true := by
  have hreturns : Returns (fields nested owner declared start) layout := ⟨cache, later, h⟩
  obtain ⟨rfl, htiles⟩ := hreturns.tiles
  refine ⟨rfl, htiles.staticSize_eq, ?_, fun s carrier hcarrier j =>
    hreturns.mem_dependents_iff hcarrier j, fun j field s scale hfield hspan =>
    hreturns.carrier hfield (FieldCodec.source?_eq_some_iff.mpr ⟨scale, hspan⟩)⟩
  intro i offset hoffset spans
  refine ⟨htiles.total_boundary spans hoffset, fun hconstant => ?_⟩
  have heval := fun spans => htiles.eval?_boundary spans hoffset hconstant
  refine ⟨fun hlt => ?_, ?_, fun other hother => ?_⟩
  · rw [heval, if_pos hlt]
  · rw [heval, ite_eq_right_iff, ← Nat.not_lt]
    simp
  · rw [heval, heval, layout.position_congr hother]

/-- A note is of variable length. -/
def noteTypes : TypeTable where
  structs :=
    [{ name := "Note"
       fields :=
        [{ name := "size", kind := .scalar .i16 },
          { name := "text", kind := .text, sizedBy := some "size" }] }]
  nodup := by decide

/-- The fields of a post, of which the count is moved to the front. -/
def postFields : List Field :=
  [{ name := "votes", kind := .list (.scalar .u32), sizedBy := some "count" },
    { name := "note", kind := .struct "Note" },
    { name := "count", kind := .scalar .u8, position := some 0 },
    { name := "pinned", kind := .scalar .bool }]

/-- The flag of a post with three votes and a note of five letters stands behind both of them. The
length of the note has no part in where the note begins. With a note that is too long the flag has
no place. -/
theorem post_tiles : ∃ layout later, ∃ votes note pinned : Offset,
    (fields (struct noteTypes [] "Post") "Post" postFields 1).run [] = .ok layout later ∧
      layout.boundaries = [⟨1, []⟩, votes, note, pinned, layout.stop] ∧
      note.eval? [0, 12, 5, 0] = some 14 ∧
      note.eval? [0, 12, 5, 0] = note.eval? [0, 12, 77, 0] ∧
      pinned.eval? [0, 12, 5, 0] = some 22 ∧ pinned.eval? [0, 12, Size.limit - 17, 0] = none := by
  let votes : Offset := ⟨2, []⟩
  let note : Offset := ⟨2, [⟨1, "count*4"⟩]⟩
  let pinned : Offset := ⟨5, [⟨1, "count*4"⟩, ⟨2, "len(note)"⟩]⟩
  have hall : (match (fields (struct noteTypes [] "Post") "Post" postFields 1).run [] with
      | .ok layout _ => some (layout.boundaries.dropLast, layout.position [0, 12, 5, 0] 2,
          layout.position [0, 12, 5, 0] 3, layout.position [0, 12, Size.limit - 17, 0] 3)
      | .error _ _ => none) =
      some ([⟨1, []⟩, votes, note, pinned], 14, 22, Size.limit) := by
    decide +kernel
  cases hrun : (fields (struct noteTypes [] "Post") "Post" postFields 1).run [] with
  | error fault later =>
    rw [hrun] at hall
    cases hall
  | ok layout later =>
    rw [hrun] at hall
    simp only [Option.some.injEq, Prod.mk.injEq] at hall
    obtain ⟨hfront, hnote, hpinned, hbeyond⟩ := hall
    have hboundaries : layout.boundaries = [⟨1, []⟩, votes, note, pinned, layout.stop] := by
      rw [Layout.boundaries, List.dropLast_concat] at hfront
      rw [Layout.boundaries, hfront]
      rfl
    obtain ⟨-, -, hplaces, -⟩ := fields_tile hrun
    rw [hboundaries] at hplaces
    obtain ⟨-, hsecond⟩ := hplaces 2 note rfl [0, 12, 5, 0]
    obtain ⟨hvalue, -, hlater⟩ := hsecond (by decide)
    obtain ⟨-, hthird⟩ := hplaces 3 pinned rfl [0, 12, 5, 0]
    obtain ⟨-, hlast⟩ := hplaces 3 pinned rfl [0, 12, Size.limit - 17, 0]
    rw [hnote] at hvalue
    rw [hpinned] at hthird
    rw [hbeyond] at hlast
    exact ⟨layout, later, votes, note, pinned, rfl, hboundaries, hvalue (by decide),
      hlater _ rfl, (hthird (by decide)).1 (by decide), (hlast (by decide)).2.1.mpr (Nat.le_refl _)⟩

end Compile

end PacketWire
