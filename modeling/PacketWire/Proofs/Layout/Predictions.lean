import PacketWire.Proofs.Layout.Construction

/-!
# What a declaration foretells

A field's declaration alone tells how wide one element is, and whether the width of the field
depends on a value. The layout that the field is compiled to bears out the first. The second is
borne out for every kind but one: an array that is declared without a length is counted by another
field, and the declaration does not say so.

* `Field.isDynamic_eq_isCounted_iff`: where the two readings of a declaration part.
* `FieldCodec.Follows.isSome_span?`: a field has a run-time span when it is counted.
* `PacketSchema.predictions_hold`: what holds of every field of a compiled schema.
* `PacketSchema.tags_unforeseen`: an array that is counted and is foretold to be fixed.
-/

namespace PacketWire

namespace Field

variable {field : Field}

/-- An array whose declaration has no length. -/
def LacksLength (field : Field) : Prop :=
  ∃ element, field.kind = .array element ∧ field.length = none

/-- Only of an array without a declared length is it not foretold that it is counted. -/
theorem isDynamic_eq_isCounted_iff : field.isDynamic = field.isCounted ↔ ¬field.LacksLength := by
  unfold isDynamic isCounted LacksLength
  cases field.kind with
  | array element => cases field.length <;> simp
  | _ => simp

end Field

/-! ## One field -/

namespace FieldCodec.Follows

variable {table : TypeTable} {ordered : List Field} {field : Field} {codec : FieldCodec Layout}
  (h : codec.Follows table ordered field)
include h

/-- A field that is no struct has a run-time span when it is counted. -/
theorem isSome_span? (hkind : ∀ type, field.kind ≠ .struct type) :
    codec.span?.isSome = field.isCounted := by
  unfold Field.isCounted
  cases h with
  | scalar h | enumeration h _ => simp [h, FieldCodec.span?]
  | fixedText h hlength | array h hlength _ => simp [h, hlength, FieldCodec.span?]
  | countedText h hlength _ | countedArray h hlength _ _ => simp [h, hlength, FieldCodec.span?]
  | list h _ _ => simp [h, FieldCodec.span?]
  | struct h _ _ => exact absurd h (hkind _)

/-- The width of an element that the declaration tells is the compiled one. -/
theorem elementSize_eq {n : Nat} (hn : field.elementSize? = some n) : codec.elementSize = n := by
  unfold Field.elementSize? at hn
  cases h with
  | scalar h | enumeration h _ | fixedText h _ | countedText h _ _ =>
    rw [h] at hn
    exact Option.some.inj hn
  | array h _ helement | countedArray h _ _ helement | list h _ helement =>
    rw [h] at hn
    cases helement with
    | scalar type => exact Option.some.inj hn
    | struct _ _ => cases hn
  | struct h _ _ =>
    rw [h] at hn
    cases hn

end FieldCodec.Follows

/-! ## Layouts -/

namespace Layout

/-- A declared field is found under its name, written as its declaration says. -/
theorem Follows.field? {table : TypeTable} {declared : List Field} {layout : Layout}
    (h : layout.Follows table declared) (hcoherent : layout.Coherent) {field : Field}
    (hfield : field ∈ declared) : ∃ (ordered : List Field) (compiled : FieldLayout Layout),
      layout.field? field.name = some compiled ∧ compiled.codec.Follows table ordered field := by
  cases h with
  | @intro owner _ ordered _ hordered hnames _ hcodecs =>
    obtain ⟨hplaces, rfl⟩ := Field.wireOrder_eq_ok_iff.mp hordered
    obtain ⟨i, hi⟩ := List.getElem?_of_mem ((Field.finalOrder_perm hplaces).mem_iff.mpr hfield)
    have hname := congrArg (·[i]?) hnames
    simp only [List.getElem?_map, hi, Option.map_some, Option.map_eq_some_iff] at hname
    obtain ⟨compiled, hcompiled, hname⟩ := hname
    exact ⟨_, compiled, hname ▸ Compile.find?_name hcoherent.names (List.mem_of_getElem? hcompiled),
      hcodecs i field compiled hi hcompiled⟩

end Layout

namespace PacketSchema

variable {schema : PacketSchema} {table : TypeTable} {d : Descriptor}

/-- Every field of a compiled schema that is no struct is compiled to elements as wide as its
declaration tells, if it tells. It has a run-time span when the declaration says that it is
dynamic, unless it is an array without a declared length. It is counted then, which the declaration
denies. -/
theorem predictions_hold (hcompile : schema.compile table = .ok d) {field : Field}
    (hfield : field ∈ schema.fields) (hkind : ∀ type, field.kind ≠ .struct type) :
    ∃ compiled, d.layout.field? field.name = some compiled ∧
      (∀ n, field.elementSize? = some n → compiled.codec.elementSize = n) ∧
      (¬field.LacksLength →
        (field.isDynamic = true ↔ compiled.codec.span?.isSome = true)) ∧
      (field.LacksLength →
        field.isDynamic = false ∧ compiled.codec.span?.isSome = true) := by
  have hlayout := (compile_ok hcompile).layout
  obtain ⟨ordered, compiled, hcompiled, hfollows⟩ :=
    hlayout.follows.field? hlayout.wellFormed.coherent hfield
  refine ⟨compiled, hcompiled, fun n => hfollows.elementSize_eq, fun hlength => ?_, ?_⟩
  · rw [Field.isDynamic_eq_isCounted_iff.mpr hlength, hfollows.isSome_span? hkind]
  · rintro ⟨element, harray, hlength⟩
    rw [hfollows.isSome_span? hkind]
    simp [Field.isDynamic, Field.isCounted, harray, hlength]

/-- A count, codes that are declared to be counted by it, and tags that are declared as a fixed
array, without a length. -/
def tagged : PacketSchema where
  name := "Tagged"
  header := 0x34
  fields :=
    [{ name := "count", kind := .scalar .u8 },
      { name := "codes", kind := .list (.scalar .u16), sizedBy := some "count" },
      { name := "tags", kind := .array (.scalar .u8), sizedBy := some "count" }]

theorem codes_foreseen : ∃ d compiled, tagged.compile .empty = .ok d ∧
    d.layout.field? "codes" = some compiled ∧ compiled.codec.elementSize = 2 ∧
      compiled.codec.span?.isSome = true := by
  have hrun : (tagged.compile .empty).toOption.isSome = true := by
    decide +kernel
  obtain ⟨d, hcompile⟩ := Option.isSome_iff_exists.mp hrun
  rw [toOption_eq_some_iff] at hcompile
  have hcodes : { name := "codes", kind := .list (.scalar .u16), sizedBy := some "count" } ∈
      tagged.fields := by
    decide
  obtain ⟨compiled, hcompiled, hsize, hspan, -⟩ := predictions_hold hcompile hcodes (by simp)
  exact ⟨d, compiled, hcompile, hcompiled, hsize 2 rfl,
    (hspan (by simp [Field.LacksLength])).mp rfl⟩

/-- An array that is declared without a length is counted, and is foretold to be fixed. -/
theorem tags_unforeseen : ∃ d, ∃ field ∈ tagged.fields, ∃ compiled,
    tagged.compile .empty = .ok d ∧ (∀ type, field.kind ≠ .struct type) ∧
      d.layout.field? field.name = some compiled ∧ field.isDynamic = false ∧
        compiled.codec.span? = some (.counted 0 1) := by
  have hrun : ((tagged.compile .empty).toOption.bind (fun d => d.layout.field? "tags")).bind
      (fun compiled => compiled.codec.span?) = some (.counted 0 1) := by
    decide +kernel
  simp only [Option.bind_eq_some_iff, toOption_eq_some_iff] at hrun
  obtain ⟨compiled, ⟨d, hcompile, hcompiled⟩, hspan⟩ := hrun
  exact ⟨d, { name := "tags", kind := .array (.scalar .u8), sizedBy := some "count" }, by decide,
    compiled, hcompile, by simp, hcompiled, rfl, hspan⟩

end PacketSchema

end PacketWire
