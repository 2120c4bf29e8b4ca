import PacketWire.Packet.Descriptor
import PacketWire.Proofs.Layout.WellFormed

/-!
# What compiling yields

Every layout that compiling gives is well-formed and follows its declarations: its fields are the
declared ones in wire order, each written the way its kind says, structs by the declarations that
the type table holds under their name.

`Yields` is what a compilation guarantees: its result has a property, and whatever happens the
remembered structs stay layouts that follow the table.

* `Yields.bind`: guarantees chain.
* `yields_struct`: a declared struct compiles to a layout that follows its declaration, by
  induction on the types that are not being compiled.
* `yields_packet`, `PacketSchema.compile_ok`: so does a packet.
-/

namespace PacketWire

/-! ## Following declarations -/

/-- The field at an index of the wire order is the one a field names as the carrier of its
length. -/
def Field.CountedBy (ordered : List Field) (field : Field) (source : Nat) : Prop :=
  ∃ carrier, ordered[source]? = some carrier ∧ field.sizedBy = some carrier.name

mutual
/-- The fields of a layout are the declared ones in wire order, each written as its kind says, and
each lists as its dependents the fields that take their length from it. -/
inductive Layout.Follows (table : TypeTable) : List Field → Layout → Prop
  | intro {owner : String} {declared ordered : List Field} {layout : Layout} :
      Field.wireOrder owner declared = .ok ordered →
      layout.fields.map (·.name) = ordered.map (·.name) →
      (∀ (i : Nat) (field : FieldLayout Layout), layout.fields[i]? = some field →
        ∀ j, j ∈ field.dependents ↔ ∃ other : FieldLayout Layout,
          layout.fields[j]? = some other ∧ other.codec.source? = some i) →
      (∀ (i : Nat) (declaration : Field) (field : FieldLayout Layout),
        ordered[i]? = some declaration → layout.fields[i]? = some field →
        FieldCodec.Follows table ordered declaration field.codec) →
      Layout.Follows table declared layout

/-- A field is written as its kind, its declared length and its size field say. -/
inductive FieldCodec.Follows (table : TypeTable) :
    List Field → Field → FieldCodec Layout → Prop
  | scalar {ordered : List Field} {field : Field} {type : Primitive} :
      field.kind = .scalar type → FieldCodec.Follows table ordered field (.scalar type)
  | enumeration {ordered : List Field} {field : Field} {name : String} {type : Primitive} :
      field.kind = .enumeration name type → type.isInteger = true →
      FieldCodec.Follows table ordered field (.scalar type)
  | fixedText {ordered : List Field} {field : Field} {bytes : Nat} :
      field.kind = .text → field.length = some bytes →
      FieldCodec.Follows table ordered field (.text (.fixed bytes))
  | countedText {ordered : List Field} {field : Field} {source : Nat} :
      field.kind = .text → field.length = none → field.CountedBy ordered source →
      FieldCodec.Follows table ordered field (.text (.counted source))
  | array {ordered : List Field} {field : Field} {kind : ElementKind}
      {element : ElementCodec Layout} {length : Nat} :
      field.kind = .array kind → field.length = some length → ElementCodec.Follows table kind element →
      FieldCodec.Follows table ordered field (.array element length)
  | countedArray {ordered : List Field} {field : Field} {kind : ElementKind}
      {element : ElementCodec Layout} {source : Nat} :
      field.kind = .array kind → field.length = none → field.CountedBy ordered source →
      ElementCodec.Follows table kind element →
      FieldCodec.Follows table ordered field (.list element source)
  | list {ordered : List Field} {field : Field} {kind : ElementKind}
      {element : ElementCodec Layout} {source : Nat} :
      field.kind = .list kind → field.CountedBy ordered source →
      ElementCodec.Follows table kind element →
      FieldCodec.Follows table ordered field (.list element source)
  | struct {ordered : List Field} {field : Field} {type : String} {schema : StructSchema}
      {layout : Layout} :
      field.kind = .struct type → table.find? type = some schema →
      Layout.Follows table schema.fields layout →
      FieldCodec.Follows table ordered field (.struct layout)

/-- Elements are scalars of the declared type, or structs that the table holds. -/
inductive ElementCodec.Follows (table : TypeTable) : ElementKind → ElementCodec Layout → Prop
  | scalar (type : Primitive) : ElementCodec.Follows table (.scalar type) (.scalar type)
  | struct {type : String} {schema : StructSchema} {layout : Layout} :
      table.find? type = some schema → Layout.Follows table schema.fields layout →
      ElementCodec.Follows table (.struct type) (.struct layout)
end

/-- A layout that declared fields compile to, the first of them at `start`. -/
structure Layout.Compiles (table : TypeTable) (declared : List Field) (start : Nat)
    (layout : Layout) : Prop where
  wellFormed : layout.WellFormed
  start_eq : layout.start = start
  follows : Layout.Follows table declared layout

/-- A descriptor that a schema compiles to: the schema's header, and a layout of its fields behind
the header bytes. -/
structure Descriptor.Compiles (table : TypeTable) (schema : PacketSchema) (d : Descriptor) :
    Prop where
  eq_ofSchema : d = .ofSchema schema d.layout
  layout : d.layout.Compiles table schema.fields schema.headerLength

/-- A layout that the struct of a name compiles to. -/
def TypeTable.Names (table : TypeTable) (type : String) (layout : Layout) : Prop :=
  ∃ schema, table.find? type = some schema ∧ layout.Compiles table schema.fields 0

/-- What compiling settles about the field at an index of the wire order. -/
structure FieldCodec.Fits (table : TypeTable) (ordered : List Field) (index : Nat) (field : Field)
    (codec : FieldCodec Layout) : Prop where
  follows : codec.Follows table ordered field
  sized : codec.Sized
  nested : ∀ inner ∈ codec.nested, inner.WellFormed ∧ inner.start = 0
  source : ∀ i, codec.source? = some i →
    i < index ∧ ∃ carrier type, ordered[i]? = some carrier ∧ carrier.kind.counter? = some type

theorem FieldCodec.Follows.eq_scalar {table : TypeTable} {ordered : List Field} {field : Field}
    {codec : FieldCodec Layout} (h : codec.Follows table ordered field) {type : Primitive}
    (hcounter : field.kind.counter? = some type) :
    codec = .scalar type ∧ type.isInteger = true := by
  cases h with
  | scalar hkind =>
    simp only [hkind, FieldKind.counter?, Option.ite_none_right_eq_some, Option.some.injEq] at hcounter
    obtain ⟨hinteger, rfl⟩ := hcounter
    exact ⟨rfl, hinteger⟩
  | enumeration hkind hinteger =>
    simp only [hkind, FieldKind.counter?, hinteger, if_true, Option.some.injEq] at hcounter
    exact ⟨hcounter ▸ rfl, hcounter ▸ hinteger⟩
  | _ => simp_all [FieldKind.counter?]

namespace Compile

/-! ## Guarantees -/

/-- Every struct that is remembered follows the table. -/
def Remembers (table : TypeTable) (cache : LayoutCache) : Prop :=
  ∀ type layout, cache.lookup type = some layout → table.Names type layout

/-- The computation keeps what is remembered, and its results have a property. -/
def Yields {α : Type} (table : TypeTable) (c : Compile α) (P : α → Prop) : Prop :=
  ∀ cache, Remembers table cache →
    match c cache with
    | .ok a cache' => P a ∧ Remembers table cache'
    | .error _ cache' => Remembers table cache'

section Yields

variable {α β : Type} {table : TypeTable} {P : α → Prop} {Q : β → Prop}

theorem Yields.pure {a : α} (h : P a) : Yields table (Pure.pure a) P :=
  fun _ hcache => ⟨h, hcache⟩

theorem Yields.throw {fault : SchemaError} : Yields table (throw fault : Compile α) P :=
  fun _ hcache => hcache

theorem Yields.bind {c : Compile α} {f : α → Compile β} (hc : Yields table c P)
    (hf : ∀ a, P a → Yields table (f a) Q) : Yields table (c >>= f) Q := by
  intro cache hcache
  have hfirst := hc cache hcache
  change match EStateM.bind c f cache with
    | .ok a cache' => Q a ∧ Remembers table cache'
    | .error _ cache' => Remembers table cache'
  rw [EStateM.bind]
  cases hrun : c cache with
  | error fault cache' =>
    rw [hrun] at hfirst
    exact hfirst
  | ok a cache' =>
    rw [hrun] at hfirst
    exact hf a hfirst.1 cache' hfirst.2

theorem Yields.map {c : Compile α} {f : α → β} (hc : Yields table c P) (hf : ∀ a, P a → Q (f a)) :
    Yields table (f <$> c) Q := by
  rw [map_eq_pure_bind]
  exact hc.bind fun a ha => Yields.pure (hf a ha)

theorem Yields.lift {e : Except SchemaError α} (h : ∀ a, e = .ok a → P a) :
    Yields table (lift e) P := by
  cases e with
  | ok a => exact Yields.pure (h a rfl)
  | error fault => exact Yields.throw

theorem Yields.get_bind {f : LayoutCache → Compile α}
    (h : ∀ cache, Remembers table cache → Yields table (f cache) P) :
    Yields table (get >>= f) P :=
  fun cache hcache => h cache hcache cache hcache

/-- Remembering a layout under a name that it follows. -/
theorem Yields.remember {type : String} {layout : Layout} (h : table.Names type layout) :
    Yields table (do modify ((type, layout) :: ·); return layout) (table.Names type) := by
  intro cache hcache
  refine ⟨h, fun other found hfound => ?_⟩
  rw [List.lookup_cons] at hfound
  split at hfound
  · next heq =>
    cases hfound
    exact beq_iff_eq.mp heq ▸ h
  · exact hcache other found hfound

end Yields

/-! ## One field -/

section Field

variable {table : TypeTable} {owner : String} {ordered : List Field} {index : Nat}

/-- A length source that was found: an earlier integer field of that name. -/
def SourceFound (ordered : List Field) (index : Nat) (field : Field) (source : Option Nat) : Prop :=
  ∀ i, source = some i → i < index ∧ field.CountedBy ordered i ∧
    ∃ carrier type, ordered[i]? = some carrier ∧ carrier.kind.counter? = some type

theorem resolveSource_ok {field : Field} {sizeField : String} {i : Nat}
    (hsized : field.sizedBy = some sizeField)
    (h : resolveSource owner ordered index field sizeField = .ok i) :
    i < index ∧ field.CountedBy ordered i ∧
      ∃ carrier type, ordered[i]? = some carrier ∧ carrier.kind.counter? = some type := by
  unfold resolveSource at h
  cases hfind : ordered.findIdx? (·.name == sizeField) with
  | none => simp [hfind] at h
  | some source =>
    obtain ⟨hlt, hname, -⟩ := List.findIdx?_eq_some_iff_getElem.mp hfind
    simp only [hfind, List.getElem?_eq_getElem hlt, Option.bind_some] at h
    by_cases hle : index ≤ source
    · simp [hle] at h
    · rw [if_neg hle] at h
      cases hcounter : ordered[source].kind.counter? with
      | none => simp [hcounter] at h
      | some type =>
        simp only [hcounter, Except.ok.injEq] at h
        subst h
        refine ⟨by omega, ⟨_, List.getElem?_eq_getElem hlt, ?_⟩, _, type,
          List.getElem?_eq_getElem hlt, hcounter⟩
        rw [hsized, beq_iff_eq.mp hname]

/-- What is expected of the compilation of the structs that fields refer to. -/
def NestedYields (table : TypeTable) (nested : String → Compile Layout) : Prop :=
  ∀ type, Yields table (nested type) (table.Names type)

variable {nested : String → Compile Layout} {field : Field}

theorem yields_element (hnested : NestedYields table nested) (kind : ElementKind) :
    Yields table (element nested owner field kind) fun codec =>
      codec.Follows table kind ∧ codec.Strided ∧
        ∀ inner ∈ codec.nested, inner.WellFormed ∧ inner.start = 0 := by
  cases kind with
  | scalar type => exact Yields.pure ⟨.scalar type, trivial, by simp [ElementCodec.nested]⟩
  | struct type =>
    refine (hnested type).bind fun layout hlayout => ?_
    obtain ⟨schema, hfind, hcompiles⟩ := hlayout
    by_cases hdynamic : layout.isDynamic = true
    · rw [if_pos hdynamic]
      exact Yields.throw
    · rw [if_neg hdynamic]
      by_cases hzero : layout.staticSize = 0
      · rw [if_pos hzero]
        exact Yields.throw
      · rw [if_neg hzero]
        refine Yields.pure ⟨.struct hfind hcompiles.follows,
          ⟨Bool.eq_false_iff.mpr hdynamic, Nat.pos_of_ne_zero hzero⟩, ?_⟩
        simp only [ElementCodec.nested, List.mem_singleton, forall_eq]
        exact ⟨hcompiles.wellFormed, hcompiles.start_eq⟩

theorem text_ok {length source : Option Nat} {width : TextWidth}
    (h : text owner field length source = .ok width) :
    (∃ bytes, length = some bytes ∧ 0 < bytes ∧ width = .fixed bytes) ∨
      (length = none ∧ ∃ i, source = some i ∧ width = .counted i) := by
  unfold text at h
  split at h
  · cases h
  · next bytes hne =>
    cases h
    exact .inl ⟨bytes, rfl, Nat.pos_of_ne_zero hne, rfl⟩
  · cases h
    exact .inr ⟨rfl, _, rfl, rfl⟩
  · cases h

theorem collection_ok {element : ElementCodec Layout} {length source : Option Nat}
    {codec : FieldCodec Layout} (h : collection owner field element length source = .ok codec) :
    (∃ n, length = some n ∧ 0 < n ∧ codec = .array element n) ∨
      (length = none ∧ ∃ i, source = some i ∧ codec = .list element i) := by
  unfold collection at h
  split at h
  · cases h
  · next n hne =>
    cases h
    exact .inl ⟨n, rfl, Nat.pos_of_ne_zero hne, rfl⟩
  · cases h
    exact .inr ⟨rfl, _, rfl, rfl⟩
  · cases h

theorem yields_codec (hnested : NestedYields table nested) {source : Option Nat}
    (hsource : SourceFound ordered index field source) :
    Yields table (codec nested owner field source) (FieldCodec.Fits table ordered index field) := by
  unfold codec
  cases hkind : field.kind with
  | scalar type =>
    exact Yields.pure ⟨.scalar hkind, trivial, by simp [FieldCodec.nested],
      by simp [FieldCodec.source?, FieldCodec.span?]⟩
  | enumeration name repr =>
    dsimp only
    by_cases hinteger : repr.isInteger = true
    · rw [if_pos hinteger]
      exact Yields.pure ⟨.enumeration hkind hinteger, trivial, by simp [FieldCodec.nested],
        by simp [FieldCodec.source?, FieldCodec.span?]⟩
    · rw [if_neg hinteger]
      exact Yields.throw
  | text =>
    have hlift : Yields table (lift (text owner field field.length source)) fun width =>
        text owner field field.length source = .ok width := Yields.lift fun _ h => h
    refine hlift.bind fun width hwidth => Yields.pure ?_
    rcases text_ok hwidth with ⟨bytes, hlength, hpos, rfl⟩ | ⟨hlength, i, hi, rfl⟩
    · exact ⟨.fixedText hkind hlength, hpos, by simp [FieldCodec.nested],
        by simp [FieldCodec.source?, FieldCodec.span?]⟩
    · obtain ⟨hlt, hcounted, hcarrier⟩ := hsource i hi
      refine ⟨.countedText hkind hlength hcounted, trivial, by simp [FieldCodec.nested], ?_⟩
      simp only [FieldCodec.source?, FieldCodec.span?, Option.some.injEq, forall_eq']
      exact ⟨hlt, hcarrier⟩
  | array kind =>
    refine (yields_element hnested kind).bind fun element helement =>
      Yields.lift fun codec hcodec => ?_
    obtain ⟨hfollows, hstrided, hinner⟩ := helement
    rcases collection_ok hcodec with ⟨n, hlength, hpos, rfl⟩ | ⟨hlength, i, hi, rfl⟩
    · exact ⟨.array hkind hlength hfollows, ⟨hstrided, hpos⟩, hinner,
        by simp [FieldCodec.source?, FieldCodec.span?]⟩
    · obtain ⟨hlt, hcounted, hcarrier⟩ := hsource i hi
      refine ⟨.countedArray hkind hlength hcounted hfollows, hstrided, hinner, ?_⟩
      simp only [FieldCodec.source?, FieldCodec.span?, Option.some.injEq, forall_eq']
      exact ⟨hlt, hcarrier⟩
  | list kind =>
    refine (yields_element hnested kind).bind fun element helement =>
      Yields.lift fun codec hcodec => ?_
    obtain ⟨hfollows, hstrided, hinner⟩ := helement
    rcases collection_ok hcodec with ⟨n, hlength, -⟩ | ⟨-, i, hi, rfl⟩
    · cases hlength
    · obtain ⟨hlt, hcounted, hcarrier⟩ := hsource i hi
      refine ⟨.list hkind hcounted hfollows, hstrided, hinner, ?_⟩
      simp only [FieldCodec.source?, FieldCodec.span?, Option.some.injEq, forall_eq']
      exact ⟨hlt, hcarrier⟩
  | struct type =>
    refine (hnested type).bind fun layout hlayout => Yields.pure ?_
    obtain ⟨schema, hfind, hcompiles⟩ := hlayout
    refine ⟨.struct hkind hfind hcompiles.follows, trivial, ?_, ?_⟩
    · simp only [FieldCodec.nested, List.mem_singleton, forall_eq]
      exact ⟨hcompiles.wellFormed, hcompiles.start_eq⟩
    · simp only [FieldCodec.source?, FieldCodec.span?]
      split <;> simp_all

theorem yields_fieldCodec {nested : String → String → Compile Layout}
    (hnested : NestedYields table (nested field.name)) :
    Yields table (fieldCodec nested owner ordered index field)
      (FieldCodec.Fits table ordered index field) := by
  unfold fieldCodec
  cases hsized : field.sizedBy with
  | none =>
    refine Yields.bind (P := SourceFound ordered index field) (Yields.pure ?_)
      fun source hsource => yields_codec hnested hsource
    simp [SourceFound]
  | some sizeField =>
    refine Yields.bind (P := SourceFound ordered index field)
      (Yields.map (P := fun i => resolveSource owner ordered index field sizeField = .ok i)
        (Yields.lift fun _ h => h) fun i hi => ?_)
      fun source hsource => yields_codec hnested hsource
    simp only [SourceFound, Option.some.injEq, forall_eq']
    exact resolveSource_ok hsized hi

/-- The codecs of the fields from an index on, one for each field. -/
def CodecsFit (table : TypeTable) (ordered : List Field) (index : Nat) (fields : List Field)
    (codecs : List (FieldCodec Layout)) : Prop :=
  codecs.length = fields.length ∧ ∀ k field codec, fields[k]? = some field →
    codecs[k]? = some codec → FieldCodec.Fits table ordered (index + k) field codec

theorem yields_fieldCodecs {nested : String → String → Compile Layout}
    (hnested : ∀ field, NestedYields table (nested field)) (fields : List Field) :
    Yields table (fieldCodecs nested owner ordered index fields)
      (CodecsFit table ordered index fields) := by
  induction fields generalizing index with
  | nil => exact Yields.pure ⟨rfl, by simp⟩
  | cons field rest ih =>
    refine (yields_fieldCodec (hnested _)).bind fun codec hcodec =>
      ih.bind fun codecs hcodecs => Yields.pure ⟨by simp [hcodecs.1], ?_⟩
    intro k other otherCodec hother hotherCodec
    cases k with
    | zero =>
      simp only [List.getElem?_cons_zero, Option.some.injEq] at hother hotherCodec
      subst hother hotherCodec
      exact hcodec
    | succ k =>
      rw [List.getElem?_cons_succ] at hother hotherCodec
      have := hcodecs.2 k other otherCodec hother hotherCodec
      rwa [Nat.add_right_comm] at this

end Field

/-! ## A list of fields -/

theorem buildOrder_perm (slots : List Slot) :
    (buildOrder slots).Perm (List.range slots.length) := by
  have hsorted := (List.mergeSort_perm slots.zipIdx fun a b =>
    (!(!a.1.binding.isConstructor) && !b.1.binding.isConstructor) ||
      ((!a.1.binding.isConstructor) == (!b.1.binding.isConstructor) &&
        a.1.declared ≤ b.1.declared)).map (·.2)
  rw [List.zipIdx_map_snd, ← List.range_eq_range'] at hsorted
  exact hsorted

/-- No name is repeated when the names are different, from each other and from those seen. -/
theorem repeatedName?_eq_none_iff {seen : List String} {fields : List Field} :
    repeatedName? seen fields = none ↔
      (fields.map (·.name)).Nodup ∧ ∀ field ∈ fields, field.name ∉ seen := by
  induction fields generalizing seen with
  | nil => simp [repeatedName?]
  | cons field rest ih =>
    rw [repeatedName?, List.map_cons, List.nodup_cons, List.forall_mem_cons]
    by_cases hseen : field.name ∈ seen
    · rw [if_pos hseen]
      exact iff_of_false (by simp) fun h => h.2.1 hseen
    · rw [if_neg hseen, ih]
      constructor
      · rintro ⟨hnodup, hrest⟩
        refine ⟨⟨?_, hnodup⟩, hseen, fun other hother hmem => ?_⟩
        · rw [List.mem_map]
          rintro ⟨other, hother, hname⟩
          exact hrest other hother (hname ▸ List.mem_cons_self)
        · exact hrest other hother (List.mem_cons_of_mem _ hmem)
      · rintro ⟨⟨hfresh, hnodup⟩, -, hrest⟩
        refine ⟨hnodup, fun other hother hmem => ?_⟩
        rcases List.mem_cons.mp hmem with hname | hmem
        · exact hfresh (List.mem_map.mpr ⟨other, hother, hname⟩)
        · exact hrest other hother hmem

theorem tiled_placeAll (names : List String) (codecs : List (FieldCodec Layout)) (index : Nat)
    (cursor : Cursor) (slots : List Slot)
    (hslots : slots.map (·.offset) = (cursor.placeAll
      ((codecs.zipIdx index).map fun (codec, i) => extent names i codec)).1) :
    Tiled index cursor.position ((slots.zip codecs).map fun (slot, codec) => ⟨slot, codec⟩)
      (cursor.placeAll
        ((codecs.zipIdx index).map fun (codec, i) => extent names i codec)).2.position := by
  induction codecs generalizing index cursor slots with
  | nil =>
    rw [List.zip_nil_right]
    exact Tiled.nil index cursor.position
  | cons codec codecs ih =>
    simp only [List.zipIdx_cons, List.map_cons, Cursor.placeAll, extent, Cursor.place] at hslots ⊢
    cases slots with
    | nil => simp at hslots
    | cons slot slots =>
      simp only [List.map_cons, List.cons.injEq] at hslots
      obtain ⟨hoffset, hrest⟩ := hslots
      have htail := ih (index + 1) _ slots hrest
      let field : FieldLayout Layout := ⟨slot, codec⟩
      let label := (codec.span?.map (termLabel names index)).getD ""
      have hbehind : field.offset.behind index field.codec label =
          ⟨cursor.position.constant + codec.staticWidth, cursor.position.terms ++
            (codec.span?.map fun span => ⟨index, termLabel names index span⟩).toList⟩ := by
        simp only [field, label, Offset.behind, ← hoffset]
        cases codec.span? <;> rfl
      rw [← hbehind] at htail ⊢
      rw [List.zip_cons_cons, List.map_cons, ← hoffset]
      exact Tiled.cons label htail

section Assemble

variable {owner : String} {declared ordered : List Field} {start : Nat}
  {codecs : List (FieldCodec Layout)}

theorem map_offset_slots {offsets : List Offset} (hoffsets : offsets.length = ordered.length) :
    (slots declared ordered codecs offsets).map (·.offset) = offsets := by
  rw [slots, List.map_map]
  change ((ordered.zip offsets).zipIdx.map (Prod.snd ∘ Prod.fst)) = offsets
  rw [← List.map_map, List.zipIdx_map_fst, List.map_snd_zip (by omega)]

theorem length_slots {offsets : List Offset} (hoffsets : offsets.length = ordered.length) :
    (slots declared ordered codecs offsets).length = ordered.length := by
  rw [← hoffsets, ← List.length_map (·.offset), map_offset_slots hoffsets]

theorem getElem?_slots {offsets : List Offset} {i : Nat} {slot : Slot}
    (h : (slots declared ordered codecs offsets)[i]? = some slot) :
    slot.dependents = dependentsOf codecs i ∧
      ∃ declaration, ordered[i]? = some declaration ∧ slot.name = declaration.name := by
  rw [slots, List.getElem?_map, Option.map_eq_some_iff] at h
  obtain ⟨⟨⟨declaration, offset⟩, index⟩, hentry, rfl⟩ := h
  rw [List.getElem?_zipIdx, Option.map_eq_some_iff] at hentry
  obtain ⟨pair, hpair, heq⟩ := hentry
  simp only [Prod.mk.injEq, Nat.zero_add] at heq
  obtain ⟨rfl, rfl⟩ := heq
  exact ⟨rfl, declaration, (List.getElem?_zip_eq_some.mp hpair).1, rfl⟩

theorem getElem?_assemble {i : Nat} {field : FieldLayout Layout}
    (h : (assemble owner declared ordered start codecs).fields[i]? = some field) :
    codecs[i]? = some field.codec ∧ field.dependents = dependentsOf codecs i ∧
      ∃ declaration, ordered[i]? = some declaration ∧ field.name = declaration.name := by
  rw [assemble, List.getElem?_map, Option.map_eq_some_iff] at h
  obtain ⟨⟨slot, codec⟩, hpair, rfl⟩ := h
  obtain ⟨hslot, hcodec⟩ := List.getElem?_zip_eq_some.mp hpair
  exact ⟨hcodec, getElem?_slots hslot⟩

variable (hlength : codecs.length = ordered.length)
include hlength

theorem length_offsets (names : List String) (cursor : Cursor) :
    (cursor.placeAll (codecs.zipIdx.map fun (codec, i) => extent names i codec)).1.length =
      ordered.length := by
  rw [Cursor.length_placeAll, List.length_map, List.length_zipIdx, hlength]

theorem length_assemble :
    (assemble owner declared ordered start codecs).fields.length = ordered.length := by
  simp only [assemble, List.length_map, List.length_zip]
  rw [length_slots (length_offsets hlength _ _), hlength, Nat.min_self]

theorem map_codec_assemble :
    (assemble owner declared ordered start codecs).fields.map (·.codec) = codecs := by
  simp only [assemble, List.map_map]
  change List.map Prod.snd _ = codecs
  apply List.map_snd_zip
  exact Nat.le_of_eq (by rw [length_slots (length_offsets hlength _ _), hlength])

theorem map_name_assemble :
    (assemble owner declared ordered start codecs).fields.map (·.name) =
      ordered.map (·.name) := by
  apply List.ext_getElem?
  intro i
  rw [List.getElem?_map, List.getElem?_map]
  cases hfield : (assemble owner declared ordered start codecs).fields[i]? with
  | none =>
    rw [List.getElem?_eq_none_iff, length_assemble hlength] at hfield
    rw [List.getElem?_eq_none hfield]
    rfl
  | some field =>
    obtain ⟨-, -, declaration, hdeclaration, hname⟩ := getElem?_assemble hfield
    rw [hdeclaration, Option.map_some, Option.map_some, hname]

omit hlength in
/-- A field of the layout belongs to the declared field at its index, whose codec it has. -/
theorem assemble_fits {table : TypeTable} (hcodecs : CodecsFit table ordered 0 ordered codecs)
    {i : Nat} {field : FieldLayout Layout}
    (h : (assemble owner declared ordered start codecs).fields[i]? = some field) :
    ∃ declaration, ordered[i]? = some declaration ∧ field.name = declaration.name ∧
      FieldCodec.Fits table ordered i declaration field.codec := by
  obtain ⟨hcodec, -, declaration, hdeclaration, hname⟩ := getElem?_assemble h
  have hfits := hcodecs.2 i declaration field.codec hdeclaration hcodec
  rw [Nat.zero_add] at hfits
  exact ⟨declaration, hdeclaration, hname, hfits⟩

omit hlength in
/-- What is inside the layout is inside a codec that fits. -/
theorem nested_assemble {table : TypeTable} (hcodecs : CodecsFit table ordered 0 ordered codecs)
    {inner : Layout} (h : inner ∈ (assemble owner declared ordered start codecs).nested) :
    inner.WellFormed ∧ inner.start = 0 := by
  obtain ⟨field, hfield, hinner⟩ := List.mem_flatMap.mp h
  obtain ⟨i, hi⟩ := List.mem_iff_getElem?.mp hfield
  obtain ⟨declaration, -, -, hfits⟩ := assemble_fits hcodecs hi
  exact hfits.nested inner hinner

omit hlength in
theorem coherent_assemble {table : TypeTable} (hnames : repeatedName? [] ordered = none)
    (hcodecs : CodecsFit table ordered 0 ordered codecs) :
    (assemble owner declared ordered start codecs).Coherent := by
  have hlength := hcodecs.1
  have hoffsets := length_offsets hlength (ordered.map (·.name)) (Cursor.start start)
  constructor
  case tiled => exact tiled_placeAll _ codecs 0 (Cursor.start start) _ (map_offset_slots hoffsets)
  case names =>
    rw [map_name_assemble hlength]
    exact (repeatedName?_eq_none_iff.mp hnames).1
  case dependents =>
    intro i field hfield
    rw [map_codec_assemble hlength]
    exact (getElem?_assemble hfield).2.1
  case sources =>
    intro j field hfield i hsource
    obtain ⟨dependent, -, -, hfits⟩ := assemble_fits hcodecs hfield
    obtain ⟨hlt, carrier, type, hcarrier, hcounter⟩ := hfits.source i hsource
    -- the field of the layout at the place of the carrier
    have hi : i < (assemble owner declared ordered start codecs).fields.length := by
      rw [length_assemble hlength]
      exact (List.getElem?_eq_some_iff.mp hcarrier).1
    have hget := List.getElem?_eq_getElem hi
    obtain ⟨declaration, hdeclaration, -, hcarrierFits⟩ := assemble_fits hcodecs hget
    rw [hcarrier, Option.some.injEq] at hdeclaration
    subst hdeclaration
    obtain ⟨hscalar, hinteger⟩ := hcarrierFits.follows.eq_scalar hcounter
    exact ⟨hlt, _, type, hget, hscalar, hinteger⟩
  case sized =>
    intro field hfield
    obtain ⟨i, hi⟩ := List.mem_iff_getElem?.mp hfield
    obtain ⟨declaration, -, -, hfits⟩ := assemble_fits hcodecs hi
    exact hfits.sized
  case order =>
    rw [length_assemble hlength, ← length_slots hoffsets]
    exact buildOrder_perm _
  case starts => exact fun inner hinner => (nested_assemble hcodecs hinner).2

omit hlength in
theorem compiles_assemble {table : TypeTable}
    (hordered : Field.wireOrder owner declared = .ok ordered)
    (hnames : repeatedName? [] ordered = none)
    (hcodecs : CodecsFit table ordered 0 ordered codecs) :
    (assemble owner declared ordered start codecs).Compiles table declared start := by
  have hcoherent : (assemble owner declared ordered start codecs).Coherent :=
    coherent_assemble hnames hcodecs
  refine ⟨.intro hcoherent fun inner hinner => (nested_assemble hcodecs hinner).1, rfl, ?_⟩
  refine .intro hordered (map_name_assemble hcodecs.1)
    (fun i field hfield j => hcoherent.mem_dependents_iff hfield j) ?_
  intro i declaration field hdeclaration hfield
  obtain ⟨found, hfound, -, hfits⟩ := assemble_fits hcodecs hfield
  rw [hdeclaration, Option.some.injEq] at hfound
  exact hfound ▸ hfits.follows

end Assemble

/-! ## Structs and packets -/

theorem yields_fields {table : TypeTable} {nested : String → String → Compile Layout}
    (hnested : ∀ field, NestedYields table (nested field)) (owner : String) (declared : List Field)
    (start : Nat) :
    Yields table (fields nested owner declared start) (Layout.Compiles table declared start) := by
  have hlift : Yields table (lift (Field.wireOrder owner declared)) fun ordered =>
      Field.wireOrder owner declared = .ok ordered := Yields.lift fun _ h => h
  refine hlift.bind fun ordered hordered => ?_
  cases hnames : repeatedName? [] ordered with
  | some name => exact Yields.throw
  | none =>
    exact (yields_fieldCodecs hnested ordered).bind fun codecs hcodecs =>
      Yields.pure (compiles_assemble hordered hnames hcodecs)

/-- A struct compiles to a layout that follows its declaration, or to a fault; the induction is on
the types that are not being compiled. -/
theorem yields_struct (table : TypeTable) (inProgress : List String) (owner field type : String) :
    Yields table (struct table inProgress owner field type) (table.Names type) := by
  induction inProgress, owner, field, type using struct.induct table with
  | case1 inProgress owner field type ih =>
    rw [struct]
    refine Yields.get_bind fun cache hcache => ?_
    cases hlookup : cache.lookup type with
    | some layout => exact Yields.pure (hcache type layout hlookup)
    | none =>
      dsimp only
      split
      · exact Yields.throw
      · next hfree =>
        split
        · exact Yields.throw
        · next schema hfind =>
          have hfields := yields_fields (fun name type => ih hfree schema hfind name type)
            schema.name schema.fields 0
          exact hfields.bind fun layout hlayout => Yields.remember ⟨schema, hfind, hlayout⟩

theorem yields_packet (table : TypeTable) (schema : PacketSchema) :
    Yields table (packet table schema)
      (Layout.Compiles table schema.fields schema.headerLength) :=
  yields_fields (fun field type => yields_struct table [] schema.name field type) _ _ _

theorem remembers_nil (table : TypeTable) : Remembers table [] := by
  simp [Remembers]

theorem yields_descriptor (table : TypeTable) (schema : PacketSchema) :
    Yields table (descriptor table schema) (Descriptor.Compiles table schema) :=
  (yields_packet table schema).bind fun _ hlayout => Yields.pure ⟨rfl, hlayout⟩

end Compile

theorem PacketSchema.compile_ok {schema : PacketSchema} {table : TypeTable} {d : Descriptor}
    (h : schema.compile table = .ok d) : d.Compiles table schema := by
  have hyields := Compile.yields_descriptor table schema [] (Compile.remembers_nil table)
  unfold PacketSchema.compile EStateM.run at h
  cases hrun : Compile.descriptor table schema [] with
  | error fault cache =>
    rw [hrun] at h
    cases h
  | ok found cache =>
    rw [hrun] at h hyields
    cases h
    exact hyields.1

end PacketWire
