import PacketWire.Layout.Basic
import PacketWire.Schema.Order
import PacketWire.Schema.Packet

/-!
# From declarations to layouts

Compiling settles the wire order, finds the field that carries each length, compiles the structs
that fields refer to, and gives every field its offset. Structs are compiled once and remembered;
a struct that is met again while it is being compiled contains itself and is refused.

The structs remembered are the state of `Compile`, which keeps them across a failure.
-/

namespace PacketWire

/-- The layouts of the structs compiled so far, by name. -/
abbrev LayoutCache := List (String × Layout)

/-- A computation that may fail on a schema and keeps its state, also when it fails. -/
abbrev CompileWith (σ : Type) := EStateM SchemaError σ

/-- A computation that may fail on a schema and remembers compiled structs, also when it fails. -/
abbrev Compile := CompileWith LayoutCache

namespace Compile

variable {σ : Type}

/-! ## One field -/

/-- The index of the field that carries a field's length, which has to come earlier on the wire and
to be an integer (`resolve_size_field`). -/
def resolveSource (owner : String) (ordered : List Field) (index : Nat) (field : Field)
    (sizeField : String) : Except SchemaError Nat :=
  match ordered.findIdx? (·.name == sizeField) with
  | none => .error (.unknownSizeField owner field.name sizeField)
  | some source =>
    if index ≤ source then
      .error (.sizeFieldAfterDependent owner field.name sizeField)
    else
      match ordered[source]?.bind (·.kind.counter?) with
      | some _ => .ok source
      | none => .error (.invalidSizeField owner sizeField)

/-- How the elements of an array are written (`compile_element`). Structs in arrays need a fixed
size above zero. -/
def element (nested : String → CompileWith σ Layout) (owner : String) (field : Field) :
    ElementKind → CompileWith σ (ElementCodec Layout)
  | .scalar type => pure (.scalar type)
  | .struct type => do
    let layout ← nested type
    if layout.isDynamic then
      throw (.dynamicElement owner field.name)
    else if layout.staticSize = 0 then
      throw (.zeroLength owner field.name)
    else
      pure (.struct layout)

/-- How a collection of elements is written, from its declared length and the field that counts
it. -/
def collection (owner : String) (field : Field) (element : ElementCodec Layout) :
    Option Nat → Option Nat → Except SchemaError (FieldCodec Layout)
  | some 0, _ => .error (.zeroLength owner field.name)
  | some length, _ => .ok (.array element length)
  | none, some source => .ok (.list element source)
  | none, none => .error (.missingLengthSource owner field.name)

/-- How a text is written, from its declared width and the field that counts it. -/
def text (owner : String) (field : Field) : Option Nat → Option Nat → Except SchemaError TextWidth
  | some 0, _ => .error (.zeroLength owner field.name)
  | some bytes, _ => .ok (.fixed bytes)
  | none, some source => .ok (.counted source)
  | none, none => .error (.missingLengthSource owner field.name)

/-- Runs a computation that remembers nothing. -/
def lift {α : Type} : Except SchemaError α → CompileWith σ α
  | .ok value => pure value
  | .error fault => throw fault

/-- How a field is written, from its kind and the field that counts it (`compile_kind`). -/
def codec (nested : String → CompileWith σ Layout) (owner : String) (field : Field)
    (source : Option Nat) : CompileWith σ (FieldCodec Layout) :=
  match field.kind with
  | .scalar type => pure (.scalar type)
  | .enumeration name repr =>
    if repr.isInteger then pure (.scalar repr)
    else throw (.unsupportedKind owner field.name
      s!"enum {name} must be backed by an integer, not {repr.name}")
  | .text => return .text (← lift (text owner field field.length source))
  | .array kind => do
    let element ← element nested owner field kind
    lift (collection owner field element field.length source)
  | .list kind => do
    let element ← element nested owner field kind
    lift (collection owner field element none source)
  | .struct type => return .struct (← nested type)

/-- How the field at an index of the wire order is written. `nested` compiles a struct that the
named field refers to. -/
def fieldCodec (nested : String → String → CompileWith σ Layout) (owner : String)
    (ordered : List Field) (index : Nat) (field : Field) : CompileWith σ (FieldCodec Layout) := do
  let source ← match field.sizedBy with
    | some sizeField => some <$> lift (resolveSource owner ordered index field sizeField)
    | none => pure none
  codec (nested field.name) owner field source

/-- How the fields from an index of the wire order on are written. -/
def fieldCodecs (nested : String → String → CompileWith σ Layout) (owner : String)
    (ordered : List Field) : Nat → List Field → CompileWith σ (List (FieldCodec Layout))
  | _, [] => pure []
  | index, field :: rest => do
    let codec ← fieldCodec nested owner ordered index field
    let codecs ← fieldCodecs nested owner ordered (index + 1) rest
    pure (codec :: codecs)

/-! ## A list of fields -/

/-- The first field whose name an earlier field has taken. -/
def repeatedName? : List String → List Field → Option String
  | _, [] => none
  | seen, field :: rest =>
    if field.name ∈ seen then some field.name else repeatedName? (field.name :: seen) rest

/-- How the run-time span of the field at an index is written (`term_label`). -/
def termLabel (names : List String) (index : Nat) : Span → String
  | .counted source scale =>
    let name := names.getD source ""
    if scale = 1 then name else s!"{name}*{scale}"
  | .nested =>
    let name := names.getD index ""
    s!"len({name})"

/-- The fixed width of the field at an index, and the term that stands for its run-time span. -/
def extent (names : List String) (index : Nat) (codec : FieldCodec Layout) : Nat × Option Term :=
  (codec.staticWidth, codec.span?.map fun span => ⟨index, termLabel names index span⟩)

/-- The fields that a field counts. -/
def dependentsOf (codecs : List (FieldCodec Layout)) (source : Nat) : List Nat :=
  (List.range codecs.length).filter fun i => (codecs[i]?.bind (·.source?)) == some source

/-- The order in which a decoded record lists the fields: those bound to the constructor, then the
properties, each group in declaration order. -/
def buildOrder (slots : List Slot) : List Nat :=
  let rank := fun (entry : Slot × Nat) => (!entry.1.binding.isConstructor, entry.1.declared)
  let before := fun (a b : Slot × Nat) =>
    (!(rank a).1 && (rank b).1) || ((rank a).1 == (rank b).1 && (rank a).2 ≤ (rank b).2)
  (slots.zipIdx.mergeSort before).map (·.2)

/-- The slots of fields in wire order, from their codecs and offsets. -/
def slots (declared ordered : List Field) (codecs : List (FieldCodec Layout))
    (offsets : List Offset) : List Slot :=
  (ordered.zip offsets).zipIdx.map fun ((field, offset), index) =>
    { name := field.name
      offset
      binding := field.binding
      declared := (declared.findIdx? (·.name == field.name)).getD index
      dependents := dependentsOf codecs index }

/-- The layout of fields in wire order, once it is known how each is written. -/
def assemble (owner : String) (declared ordered : List Field) (start : Nat)
    (codecs : List (FieldCodec Layout)) : Layout :=
  let names := ordered.map (·.name)
  let extents := codecs.zipIdx.map fun (codec, index) => extent names index codec
  let (offsets, last) := (Cursor.start start).placeAll extents
  let slots := slots declared ordered codecs offsets
  { name := owner
    start
    fields := (slots.zip codecs).map fun (slot, codec) => ⟨slot, codec⟩
    stop := last.position
    buildOrder := buildOrder slots }

/-- The layout of a list of fields whose first field sits at `start` (`compile_fields`). -/
def fields (nested : String → String → CompileWith σ Layout) (owner : String)
    (declared : List Field) (start : Nat) : CompileWith σ Layout := do
  let ordered ← lift (Field.wireOrder owner declared)
  match repeatedName? [] ordered with
  | some name => throw (.duplicateField owner name)
  | none =>
    let codecs ← fieldCodecs nested owner ordered 0 ordered
    pure (assemble owner declared ordered start codecs)

/-! ## Structs that refer to structs -/

/-- The declared types that are not being compiled. -/
def available (table : TypeTable) (inProgress : List String) : List StructSchema :=
  table.structs.filter (·.name ∉ inProgress)

theorem length_available_cons_lt {table : TypeTable} {inProgress : List String} {type : String}
    {schema : StructSchema} (hfind : table.find? type = some schema) (hfree : type ∉ inProgress) :
    (available table (type :: inProgress)).length < (available table inProgress).length := by
  have hname : schema.name = type := by
    have := List.find?_some hfind
    simpa using this
  have hmem : schema ∈ table.structs := List.mem_of_find?_eq_some hfind
  have hsub : available table (type :: inProgress) =
      (available table inProgress).filter (·.name ≠ type) := by
    simp only [available, List.filter_filter]
    congr 1
    funext s
    simp
  rw [hsub, List.length_filter_lt_length_iff_exists]
  exact ⟨schema, by simp [available, hmem, hname, hfree], by simp [hname]⟩

/-- The layout of a declared struct (`compile_struct`): remembered, or compiled and then remembered.
`inProgress` lists the structs whose compilation led here. -/
def struct (table : TypeTable) (inProgress : List String) (owner field type : String) :
    Compile Layout := do
  match (← get).lookup type with
  | some layout => pure layout
  | none =>
    if _hfree : type ∈ inProgress then
      throw (.recursiveType type)
    else
      match _hfind : table.find? type with
      | none => throw (.unknownType owner field type)
      | some schema =>
        let layout ← fields (struct table (type :: inProgress) schema.name)
          schema.name schema.fields 0
        modify ((type, layout) :: ·)
        pure layout
termination_by (available table inProgress).length
decreasing_by exact length_available_cons_lt (by assumption) (by assumption)

/-- The layout of a packet (`compile_packet`). -/
def packet (table : TypeTable) (schema : PacketSchema) : Compile Layout :=
  fields (struct table [] schema.name) schema.name schema.fields schema.headerLength

end Compile

end PacketWire
