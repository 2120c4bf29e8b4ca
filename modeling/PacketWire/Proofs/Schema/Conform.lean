import Mathlib.Logic.Relation
import PacketWire.Proofs.Schema.Order
import PacketWire.Schema.Packet

/-!
# Declarations that conform

What is asked of the fields of a packet and of the structs that they reach, in terms of the
declarations alone.

* `TypeTable.Admits`: what is asked of one list of fields.
* `TypeTable.Strides`: what is asked besides of the structs in its arrays.
* `TypeTable.Conforms`: what is asked of a list of fields and of every struct that it reaches.
* `TypeTable.accepts_iff`: a struct conforms when its fields do; only this step knows of cycles.
-/

namespace PacketWire

/-! ## One field -/

/-- The struct that elements are. -/
def ElementKind.type? : ElementKind → Option String
  | .scalar _ => none
  | .struct type => some type

/-- The struct that the elements of a field are. -/
def FieldKind.elementType? : FieldKind → Option String
  | .array element | .list element => element.type?
  | .scalar _ | .enumeration _ _ | .text | .struct _ => none

/-- The struct that a field is, or its elements are. -/
def FieldKind.type? : FieldKind → Option String
  | .struct type => some type
  | .array element | .list element => element.type?
  | .scalar _ | .enumeration _ _ | .text => none

namespace Field

/-- Whether the number of bytes of the field depends on a count. -/
def isCounted (field : Field) : Bool :=
  match field.kind with
  | .text | .array _ => field.length.isNone
  | .list _ => true
  | .scalar _ | .enumeration _ _ | .struct _ => false

/-- A text or an array has a length above zero, or else a field that counts it. A list has a field
that counts it. -/
def HasLength (field : Field) : Prop :=
  match field.kind with
  | .text | .array _ =>
    (∃ n, field.length = some n ∧ 0 < n) ∨ field.length = none ∧ field.sizedBy.isSome = true
  | .list _ => field.sizedBy.isSome = true
  | .scalar _ | .enumeration _ _ | .struct _ => True

/-- An integer field of that name stands before an index. -/
def CarriedBefore (ordered : List Field) (index : Nat) (sizeField : String) : Prop :=
  ∃ i carrier type, i < index ∧ ordered[i]? = some carrier ∧ carrier.name = sizeField ∧
    carrier.kind.counter? = some type

end Field

namespace TypeTable

variable (table : TypeTable)

/-! ## Structs -/

/-- One struct refers to another, as a field or as the elements of a field. -/
def Refers (outer inner : String) : Prop :=
  ∃ schema, table.find? outer = some schema ∧
    ∃ field ∈ schema.fields, field.kind.type? = some inner

/-- A list of fields reaches a struct. -/
def Reaches (fields : List Field) (type : String) : Prop :=
  ∃ field ∈ fields, ∃ first, field.kind.type? = some first ∧
    Relation.ReflTransGen table.Refers first type

/-- A struct some part of which, at some depth, has a size that depends on a count. -/
inductive Varies : String → Prop
  | counted {type : String} {schema : StructSchema} {field : Field} :
      table.find? type = some schema → field ∈ schema.fields → field.isCounted = true → Varies type
  | nested {type inner : String} {schema : StructSchema} {field : Field} :
      table.find? type = some schema → field ∈ schema.fields → field.kind.type? = some inner →
      Varies inner → Varies type

/-- A struct some part of which, at some depth, is no struct. -/
inductive TakesBytes : String → Prop
  | intro {type : String} {schema : StructSchema} {field : Field} :
      table.find? type = some schema → field ∈ schema.fields →
      (∀ inner, field.kind = .struct inner → TakesBytes inner) → TakesBytes type

/-- A field with a part whose size depends on a count. -/
def FieldVaries (field : Field) : Prop :=
  field.isCounted = true ∨ ∃ inner, field.kind.type? = some inner ∧ table.Varies inner

/-- A field with a part that is no struct. -/
def FieldTakesBytes (field : Field) : Prop :=
  ∀ inner, field.kind = .struct inner → table.TakesBytes inner

variable {table}

theorem varies_iff {type : String} {schema : StructSchema}
    (hfind : table.find? type = some schema) :
    table.Varies type ↔ ∃ field ∈ schema.fields, table.FieldVaries field := by
  constructor
  · intro h
    cases h with
    | counted hfound hfield hcounted =>
      rw [hfind] at hfound
      cases hfound
      exact ⟨_, hfield, .inl hcounted⟩
    | nested hfound hfield htype hinner =>
      rw [hfind] at hfound
      cases hfound
      exact ⟨_, hfield, .inr ⟨_, htype, hinner⟩⟩
  · rintro ⟨field, hfield, hcounted | ⟨inner, htype, hinner⟩⟩
    · exact .counted hfind hfield hcounted
    · exact .nested hfind hfield htype hinner

theorem takesBytes_iff {type : String} {schema : StructSchema}
    (hfind : table.find? type = some schema) :
    table.TakesBytes type ↔ ∃ field ∈ schema.fields, table.FieldTakesBytes field := by
  constructor
  · rintro ⟨hfound, hfield, hinner⟩
    rw [hfind] at hfound
    cases hfound
    exact ⟨_, hfield, hinner⟩
  · rintro ⟨field, hfield, hinner⟩
    exact .intro hfind hfield hinner

/-! ## What is asked -/

variable (table)

/-- What is asked of the field at an index of the wire order. -/
structure AdmitsField (ordered : List Field) (index : Nat) (field : Field) : Prop where
  /-- A size field comes earlier and is an integer, also where the field makes no use of it. -/
  sizedBy : ∀ sizeField, field.sizedBy = some sizeField →
    Field.CarriedBefore ordered index sizeField
  enumeration : ∀ name repr, field.kind = .enumeration name repr → repr.isInteger = true
  length : field.HasLength
  /-- The structs in an array are all of one size. -/
  elements : ∀ type, field.kind.elementType? = some type → ¬table.Varies type

/-- What is asked of a list of fields. -/
structure Admits (declared : List Field) : Prop where
  places : Field.PlacesFit declared
  names : (declared.map (·.name)).Nodup
  fields : ∀ i field, (Field.finalOrder declared)[i]? = some field →
    table.AdmitsField (Field.finalOrder declared) i field

/-- The structs in the arrays of a list of fields take bytes. -/
def Strides (declared : List Field) : Prop :=
  ∀ field ∈ declared, ∀ type, field.kind.elementType? = some type → table.TakesBytes type

variable (P : List Field → Prop)

/-- A list of fields has a property, and every struct that it reaches is declared, has the property
and does not contain itself. -/
structure Conforms (declared : List Field) : Prop where
  fields : P declared
  types : ∀ type, table.Reaches declared type →
    (∃ schema, table.find? type = some schema ∧ P schema.fields) ∧
      ¬Relation.TransGen table.Refers type type

/-- A struct, and every struct that it reaches, is declared, has a property and does not contain
itself. -/
def Accepts (type : String) : Prop :=
  ∀ inner, Relation.ReflTransGen table.Refers type inner →
    (∃ schema, table.find? inner = some schema ∧ P schema.fields) ∧
      ¬Relation.TransGen table.Refers inner inner

variable {table P}

theorem conforms_iff {declared : List Field} : table.Conforms P declared ↔
    P declared ∧ ∀ field ∈ declared, ∀ type, field.kind.type? = some type →
      table.Accepts P type := by
  constructor
  · intro h
    exact ⟨h.fields, fun field hfield type htype inner hinner =>
      h.types inner ⟨field, hfield, type, htype, hinner⟩⟩
  · rintro ⟨hfields, haccepts⟩
    refine ⟨hfields, ?_⟩
    rintro type ⟨field, hfield, first, hfirst, hreach⟩
    exact haccepts field hfield first hfirst type hreach

/-- A struct conforms when it is declared and its fields do. That it does not contain itself is then
known: it would be among the structs that its fields reach. -/
theorem accepts_iff {type : String} {schema : StructSchema}
    (hfind : table.find? type = some schema) :
    table.Accepts P type ↔ table.Conforms P schema.fields := by
  constructor
  · intro h
    obtain ⟨⟨found, hfound, hP⟩, -⟩ := h type .refl
    rw [hfind] at hfound
    cases hfound
    refine ⟨hP, ?_⟩
    rintro inner ⟨field, hfield, first, hfirst, hreach⟩
    exact h inner (.head ⟨schema, hfind, field, hfield, hfirst⟩ hreach)
  · intro h
    have hstep : ∀ first inner, table.Refers type first →
        Relation.ReflTransGen table.Refers first inner → table.Reaches schema.fields inner := by
      rintro first inner ⟨found, hfound, field, hfield, htype⟩ hreach
      rw [hfind] at hfound
      cases hfound
      exact ⟨field, hfield, first, htype, hreach⟩
    intro inner hreach
    rcases Relation.ReflTransGen.cases_head hreach with rfl | ⟨first, hfirst, hrest⟩
    · refine ⟨⟨schema, hfind, h.fields⟩, fun hcycle => ?_⟩
      obtain ⟨first, hfirst, hrest⟩ := Relation.TransGen.head'_iff.mp hcycle
      exact (h.types _ (hstep first _ hfirst hrest)).2 hcycle
    · exact h.types inner (hstep first inner hfirst hrest)

theorem Accepts.exists_find? {type : String} (h : table.Accepts P type) :
    ∃ schema, table.find? type = some schema := by
  obtain ⟨⟨schema, hfind, -⟩, -⟩ := h type .refl
  exact ⟨schema, hfind⟩

end TypeTable

end PacketWire
