import Mathlib.Data.List.InsertIdx
import PacketWire.Proofs.Layout.Remembered

/-!
# Compiling without bindings

How a field is bound says where a decoded record lists it, and nothing else. Forgetting the bindings
commutes with compiling: declarations that differ in bindings alone are refused with one fault, or
compile to layouts that differ in bindings and build order alone.

* `Field.unbound`, `Layout.unbound`: declarations and layouts whose bindings are forgotten.
* `Field.wireOrder_unbound`: bindings have no part in the order on the wire.
* `Compile.fields_unbound`: a list of fields compiles as it does without its bindings.
* `PacketSchema.compile_congr_unbound`: packets that differ in bindings, in their own fields and in
  the structs of their tables, compile alike.
-/

namespace PacketWire

/-! ## Declarations -/

/-- The field as a property. -/
def Field.unbound (field : Field) : Field := { field with binding := .property }

/-- The struct with properties only. -/
def StructSchema.unbound (schema : StructSchema) : StructSchema :=
  { schema with fields := schema.fields.map Field.unbound }

/-- The packet with properties only. -/
def PacketSchema.unbound (schema : PacketSchema) : PacketSchema :=
  { schema with fields := schema.fields.map Field.unbound }

/-- Two tables hold the same structs, up to bindings. -/
def TypeTable.SameUnbound (table table' : TypeTable) : Prop :=
  ∀ type, (table.find? type).map StructSchema.unbound = (table'.find? type).map StructSchema.unbound

/-- Tables whose structs are the same one by one, up to bindings. -/
theorem TypeTable.sameUnbound_of_structs {table table' : TypeTable}
    (h : table.structs.map StructSchema.unbound = table'.structs.map StructSchema.unbound) :
    table.SameUnbound table' := by
  have hfind (table : TypeTable) (type : String) :
      (table.find? type).map StructSchema.unbound =
        (table.structs.map StructSchema.unbound).find? (·.name == type) := by
    rw [List.find?_map]
    rfl
  intro type
  rw [hfind, hfind, h]

namespace Field

theorem insertPlaced_unbound (owner : String) (placed : List (Nat × Field)) (ordered : List Field) :
    insertPlaced owner (placed.map (Prod.map id unbound)) (ordered.map unbound) =
      (insertPlaced owner placed ordered).map (List.map unbound) := by
  induction placed generalizing ordered with
  | nil => rfl
  | cons entry placed ih =>
    obtain ⟨position, field⟩ := entry
    rw [List.map_cons, Prod.map_apply, id_eq, insertPlaced, insertPlaced, List.length_map]
    split
    · rw [← List.map_insertIdx, ih]
    · rfl

/-- Bindings have no part in the order on the wire. -/
theorem wireOrder_unbound (owner : String) (declared : List Field) :
    wireOrder owner (declared.map unbound) =
      (wireOrder owner declared).map (List.map unbound) := by
  have hunplaced : unplaced (declared.map unbound) = (unplaced declared).map unbound := by
    rw [unplaced, List.filter_map]
    rfl
  have hsort (entries : List (Nat × Field)) :
      (entries.mergeSort fun a b => a.1 ≤ b.1).map (Prod.map id unbound) =
        (entries.map (Prod.map id unbound)).mergeSort fun a b => a.1 ≤ b.1 :=
    List.map_mergeSort fun _ _ _ _ => rfl
  have hplaced : placed (declared.map unbound) = (placed declared).map (Prod.map id unbound) := by
    rw [placed, placed, hsort, List.filterMap_map, List.map_filterMap]
    congr 2
    funext field
    simp only [Function.comp_apply, Option.map_map]
    rfl
  rw [wireOrder, hunplaced, hplaced, insertPlaced_unbound]
  rfl

end Field

/-! ## Layouts -/

/-- The slot of a property. -/
def Slot.unbound (slot : Slot) : Slot := { slot with binding := .property }

mutual
/-- The layout of properties only: a decoded record lists them in wire order, at every depth. -/
def Layout.unbound : Layout → Layout
  | ⟨name, start, fields, stop, _⟩ =>
    ⟨name, start, Layout.unboundFields fields, stop, List.range fields.length⟩

/-- The fields of a layout as properties. -/
def Layout.unboundFields : List (FieldLayout Layout) → List (FieldLayout Layout)
  | [] => []
  | ⟨slot, codec⟩ :: rest => ⟨slot.unbound, FieldCodec.unbound codec⟩ :: Layout.unboundFields rest

/-- The same codec, with properties only in the structs. -/
def FieldCodec.unbound : FieldCodec Layout → FieldCodec Layout
  | .scalar type => .scalar type
  | .text width => .text width
  | .array element length => .array (ElementCodec.unbound element) length
  | .list element source => .list (ElementCodec.unbound element) source
  | .struct layout => .struct (Layout.unbound layout)

/-- The same elements, with properties only in the structs. -/
def ElementCodec.unbound : ElementCodec Layout → ElementCodec Layout
  | .scalar type => .scalar type
  | .struct layout => .struct (Layout.unbound layout)
end

/-- The descriptor of a packet with properties only. -/
def Descriptor.unbound (d : Descriptor) : Descriptor := { d with layout := d.layout.unbound }

/-- The field of a layout as a property. -/
def FieldLayout.unbound (field : FieldLayout Layout) : FieldLayout Layout :=
  ⟨field.toSlot.unbound, field.codec.unbound⟩

theorem Layout.unboundFields_eq_map (fields : List (FieldLayout Layout)) :
    unboundFields fields = fields.map FieldLayout.unbound := by
  induction fields with
  | nil => rw [unboundFields, List.map_nil]
  | cons field fields ih =>
    rw [unboundFields, ih]
    rfl

theorem Layout.unbound_eq (layout : Layout) :
    layout.unbound = { layout with
      fields := layout.fields.map FieldLayout.unbound
      buildOrder := List.range layout.fields.length } := by
  cases layout
  rw [unbound, unboundFields_eq_map]

@[simp]
theorem Layout.stop_unbound (layout : Layout) : layout.unbound.stop = layout.stop := by
  rw [unbound_eq]

@[simp]
theorem Layout.staticSize_unbound (layout : Layout) :
    layout.unbound.staticSize = layout.staticSize := by
  rw [staticSize, stop_unbound, staticSize]

@[simp]
theorem Layout.isDynamic_unbound (layout : Layout) :
    layout.unbound.isDynamic = layout.isDynamic := by
  rw [isDynamic, stop_unbound, isDynamic]

@[simp]
theorem ElementCodec.size_unbound (element : ElementCodec Layout) :
    element.unbound.size = element.size := by
  cases element with
  | scalar type => rw [unbound]
  | struct layout =>
    rw [unbound]
    exact layout.staticSize_unbound

namespace FieldCodec

@[simp]
theorem staticWidth_unbound (codec : FieldCodec Layout) :
    codec.unbound.staticWidth = codec.staticWidth := by
  cases codec with
  | array element length =>
    rw [unbound]
    exact congrArg (· * length) element.size_unbound
  | struct layout =>
    rw [unbound]
    exact layout.staticSize_unbound
  | _ => rw [unbound] <;> rfl

@[simp]
theorem span?_unbound (codec : FieldCodec Layout) : codec.unbound.span? = codec.span? := by
  cases codec with
  | list element source =>
    rw [unbound, span?, span?, element.size_unbound]
  | struct layout => rw [unbound, span?, span?, layout.isDynamic_unbound]
  | _ => rw [unbound] <;> rfl

@[simp]
theorem source?_unbound (codec : FieldCodec Layout) : codec.unbound.source? = codec.source? := by
  rw [source?, span?_unbound, source?]

end FieldCodec

namespace Compile

/-! ## One field -/

section Field

variable {α β : Type}

theorem lift_map (f : α → β) (e : Except SchemaError α) :
    lift (e.map f) = f <$> (lift e : Compile α) := by
  cases e <;> rfl

theorem resolveSource_unbound (owner : String) (ordered : List Field) (index : Nat) (field : Field)
    (sizeField : String) :
    resolveSource owner (ordered.map Field.unbound) index field.unbound sizeField =
      resolveSource owner ordered index field sizeField := by
  rw [resolveSource, resolveSource, List.findIdx?_map]
  simp only [List.getElem?_map, Option.bind_map]
  rfl

theorem collection_unbound (owner : String) (field : Field) (element : ElementCodec Layout)
    (length source : Option Nat) :
    collection owner field.unbound element.unbound length source =
      (collection owner field element length source).map FieldCodec.unbound := by
  unfold collection
  split <;> simp only [Except.map, FieldCodec.unbound, Field.unbound]

variable (nested : String → Compile Layout) (owner : String) (field : Field)

theorem element_unbound (kind : ElementKind) :
    element (fun type => Layout.unbound <$> nested type) owner field.unbound kind =
      ElementCodec.unbound <$> element nested owner field kind := by
  cases kind with
  | scalar type => rw [element, element, map_pure, ElementCodec.unbound]
  | struct type =>
    rw [element, element, map_bind, bind_map_left]
    congr 1
    funext layout
    rw [layout.isDynamic_unbound, layout.staticSize_unbound]
    split
    · rfl
    · split
      · rfl
      · rw [map_pure, ElementCodec.unbound]

theorem codec_unbound (source : Option Nat) :
    codec (fun type => Layout.unbound <$> nested type) owner field.unbound source =
      FieldCodec.unbound <$> codec nested owner field source := by
  have hkind : field.unbound.kind = field.kind := rfl
  unfold codec
  rw [hkind]
  cases field.kind with
  | scalar type => simp only [map_pure, FieldCodec.unbound]
  | enumeration name repr =>
    dsimp only
    split
    · simp only [map_pure, FieldCodec.unbound]
    · rfl
  | text =>
    simp only [map_bind, map_pure, FieldCodec.unbound]
    rfl
  | array kind =>
    simp only [map_bind, element_unbound, bind_map_left, ← lift_map, ← collection_unbound]
    rfl
  | list kind =>
    simp only [map_bind, element_unbound, bind_map_left, ← lift_map, ← collection_unbound]
  | struct type => simp only [map_bind, map_pure, bind_map_left, FieldCodec.unbound]

end Field

/-! ## A list of fields -/

section Fields

variable (nested : String → String → Compile Layout) (owner : String)

theorem fieldCodec_unbound (ordered : List Field) (index : Nat) (field : Field) :
    fieldCodec (fun name type => Layout.unbound <$> nested name type) owner
        (ordered.map Field.unbound) index field.unbound =
      FieldCodec.unbound <$> fieldCodec nested owner ordered index field := by
  have hsized : field.unbound.sizedBy = field.sizedBy := rfl
  unfold fieldCodec
  rw [hsized]
  cases field.sizedBy with
  | none =>
    simp only [map_bind, ← codec_unbound]
    rfl
  | some sizeField =>
    simp only [map_bind, ← codec_unbound, resolveSource_unbound]
    rfl

theorem fieldCodecs_unbound (ordered : List Field) (index : Nat) (rest : List Field) :
    fieldCodecs (fun name type => Layout.unbound <$> nested name type) owner
        (ordered.map Field.unbound) index (rest.map Field.unbound) =
      List.map FieldCodec.unbound <$> fieldCodecs nested owner ordered index rest := by
  induction rest generalizing index with
  | nil => rfl
  | cons field rest ih =>
    rw [List.map_cons, fieldCodecs, fieldCodecs, fieldCodec_unbound, ih]
    simp only [map_bind, bind_map_left, map_pure, List.map_cons]

theorem repeatedName?_unbound (seen : List String) (fields : List Field) :
    repeatedName? seen (fields.map Field.unbound) = repeatedName? seen fields := by
  induction fields generalizing seen with
  | nil => rfl
  | cons field fields ih =>
    rw [List.map_cons, repeatedName?, repeatedName?, ih]
    rfl

theorem dependentsOf_unbound (codecs : List (FieldCodec Layout)) (source : Nat) :
    dependentsOf (codecs.map FieldCodec.unbound) source = dependentsOf codecs source := by
  rw [dependentsOf, dependentsOf, List.length_map]
  simp only [List.getElem?_map, Option.bind_map, Function.comp_def, FieldCodec.source?_unbound]

theorem slots_unbound (declared ordered : List Field) (codecs : List (FieldCodec Layout))
    (offsets : List Offset) :
    slots (declared.map Field.unbound) (ordered.map Field.unbound) (codecs.map FieldCodec.unbound)
        offsets =
      (slots declared ordered codecs offsets).map Slot.unbound := by
  rw [slots, slots, List.zip_map_left, List.zipIdx_map, List.map_map, List.map_map]
  apply List.map_congr_left
  rintro ⟨⟨field, offset⟩, index⟩ -
  simp only [Function.comp_apply, Prod.map_apply, id_eq, List.findIdx?_map, dependentsOf_unbound]
  rfl

theorem extents_unbound (names : List String) (codecs : List (FieldCodec Layout)) :
    (codecs.map FieldCodec.unbound).zipIdx.map (fun (codec, index) => extent names index codec) =
      codecs.zipIdx.map fun (codec, index) => extent names index codec := by
  rw [List.zipIdx_map, List.map_map]
  apply List.map_congr_left
  rintro ⟨codec, index⟩ -
  simp only [Function.comp_apply, Prod.map_apply, id_eq, extent, FieldCodec.staticWidth_unbound,
    FieldCodec.span?_unbound]

/-- The layout with the fields in wire order in decoded records. -/
def inWireOrder (layout : Layout) : Layout :=
  { layout with buildOrder := List.range layout.fields.length }

theorem assemble_unbound (declared ordered : List Field) (start : Nat)
    (codecs : List (FieldCodec Layout)) :
    inWireOrder (assemble owner (declared.map Field.unbound) (ordered.map Field.unbound) start
        (codecs.map FieldCodec.unbound)) =
      (assemble owner declared ordered start codecs).unbound := by
  have hnames : (ordered.map Field.unbound).map (·.name) = ordered.map (·.name) := by
    rw [List.map_map]
    rfl
  -- names, widths and spans are the same, so every offset is
  rw [Layout.unbound_eq]
  simp only [inWireOrder, assemble, hnames, extents_unbound, slots_unbound, List.zip_map, List.map_map,
    List.length_map, List.length_zip]
  rfl

theorem fields_unbound (declared : List Field) (start : Nat) :
    inWireOrder <$> fields (fun name type => Layout.unbound <$> nested name type) owner
        (declared.map Field.unbound) start =
      Layout.unbound <$> fields nested owner declared start := by
  rw [fields, fields, Field.wireOrder_unbound, lift_map, map_bind, map_bind, bind_map_left]
  congr 1
  funext ordered
  rw [repeatedName?_unbound]
  cases repeatedName? [] ordered with
  | some name => rfl
  | none =>
    dsimp only
    rw [fieldCodecs_unbound]
    simp only [map_bind, bind_map_left, map_pure, assemble_unbound]

end Fields

/-! ## Structs and packets -/

/-- Fields that differ in bindings compile alike, up to bindings, when the structs do that they
refer to. -/
theorem fields_congr_unbound {nested nested' : String → String → Compile Layout}
    (hnested : ∀ name type, Layout.unbound <$> nested name type =
      Layout.unbound <$> nested' name type) {declared declared' : List Field}
    (hdeclared : declared.map Field.unbound = declared'.map Field.unbound) (owner : String)
    (start : Nat) :
    Layout.unbound <$> fields nested owner declared start =
      Layout.unbound <$> fields nested' owner declared' start := by
  rw [← fields_unbound, ← fields_unbound, hdeclared]
  simp only [hnested]

/-- A struct compiles alike, up to bindings, in tables that differ in bindings; the induction is on
the types that are not being compiled. -/
theorem plainStruct_congr_unbound {table table' : TypeTable} (h : table.SameUnbound table')
    (inProgress : List String) (owner field type : String) :
    Layout.unbound <$> plainStruct table inProgress owner field type =
      Layout.unbound <$> plainStruct table' inProgress owner field type := by
  induction inProgress, owner, field, type using plainStruct.induct table with
  | case1 inProgress owner field type hmem =>
    rw [plainStruct_of_mem hmem, plainStruct_of_mem hmem]
  | case2 inProgress owner field type hmem hfind =>
    have hfind' : table'.find? type = none := by
      have htype := h type
      rw [hfind] at htype
      exact Option.map_eq_none_iff.mp htype.symm
    rw [plainStruct_of_unknown hmem hfind, plainStruct_of_unknown hmem hfind']
  | case3 inProgress owner field type hmem schema hfind ih =>
    have htype := h type
    rw [hfind] at htype
    obtain ⟨schema', hfind', hschema⟩ := Option.map_eq_some_iff.mp htype.symm
    obtain ⟨hname, hfields⟩ := StructSchema.mk.inj hschema
    rw [plainStruct_of_find? hmem hfind, plainStruct_of_find? hmem hfind', hname]
    exact fields_congr_unbound ih hfields.symm schema.name 0

theorem plainDescriptor_congr_unbound {table table' : TypeTable} (h : table.SameUnbound table')
    {schema schema' : PacketSchema} (hschema : schema.unbound = schema'.unbound)
    (inProgress : List String) :
    Descriptor.unbound <$> plainDescriptor table inProgress schema =
      Descriptor.unbound <$> plainDescriptor table' inProgress schema' := by
  have hmap (table : TypeTable) (schema : PacketSchema) :
      Descriptor.unbound <$> plainDescriptor table inProgress schema =
        Descriptor.ofSchema schema.unbound <$> Layout.unbound <$>
          fields (plainStruct table inProgress schema.name) schema.name schema.fields
            schema.headerLength := by
    simp only [plainDescriptor, map_bind, map_pure, Functor.map_map]
    rfl
  obtain ⟨hname, -, hsub, -, -, hfields⟩ := PacketSchema.mk.inj hschema
  have hlength : schema.headerLength = schema'.headerLength := by
    rw [PacketSchema.headerLength, hsub, PacketSchema.headerLength]
  rw [hmap, hmap, hschema, hname, hlength]
  congr 1
  exact fields_congr_unbound
    (fun name type => plainStruct_congr_unbound h inProgress schema'.name name type) hfields _ _

end Compile

/-- Schemas that differ in bindings are refused with one fault, or compile to packets that differ in
bindings and in the order of construction. -/
theorem PacketSchema.compile_congr_unbound {table table' : TypeTable}
    (h : table.SameUnbound table') {schema schema' : PacketSchema}
    (hschema : schema.unbound = schema'.unbound) :
    (schema.compile table).map Descriptor.unbound =
      (schema'.compile table').map Descriptor.unbound := by
  rw [Compile.compile_eq_outcome, Compile.compile_eq_outcome, ← Compile.outcome_map,
    ← Compile.outcome_map, Compile.plainDescriptor_congr_unbound h hschema]

end PacketWire
