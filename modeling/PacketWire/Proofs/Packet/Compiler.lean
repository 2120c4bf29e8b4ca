import PacketWire.Packet.Compiler
import PacketWire.Proofs.Layout.Remembered

/-!
# One compiler for many packets

A compiler leaves every struct that it has entered, also on the way out of a struct that does not
compile. So it stands between two packets with no struct in progress, and as what it remembers is
faithful, it answers to each schema what a new compiler answers.

* `Compiler.Scoped`: a computation leaves the structs in progress as it found them.
* `Compiler.scoped_struct`: so does compiling a struct, in which the structs entered are those that
  led there.
* `Compiler.Idle.answer`: a compiler that stands between two packets compiles a schema as it
  compiles on its own, and stands between two packets again.
* `Compiler.answers_eq_map_answer`: schemas one after another are answered as by new compilers.
-/

namespace PacketWire.Compiler

open Compile (Faithful available)

/-! ## Structs in progress -/

/-- With these structs in progress, the compiler's computation does what the other does, which is
told what they are, and they are in progress afterwards, whether it fails or not. -/
def Scoped {α : Type} (inProgress : List String) (c : CompileWith Compiler α) (scope : Compile α) :
    Prop :=
  ∀ remembered, c ⟨remembered, inProgress⟩ =
    match scope remembered with
    | .ok a later => .ok a ⟨later, inProgress⟩
    | .error fault later => .error fault ⟨later, inProgress⟩

section Scoped

variable {α β : Type} {inProgress : List String}

theorem Scoped.pure (a : α) : Scoped inProgress (Pure.pure a) (Pure.pure a) := fun _ => rfl

theorem Scoped.throw (fault : SchemaError) :
    Scoped inProgress (throw fault : CompileWith Compiler α) (throw fault) :=
  fun _ => rfl

theorem Scoped.bind {c : CompileWith Compiler α} {scope : Compile α}
    {f : α → CompileWith Compiler β} {next : α → Compile β} (hc : Scoped inProgress c scope)
    (hf : ∀ a, Scoped inProgress (f a) (next a)) : Scoped inProgress (c >>= f) (scope >>= next) := by
  intro remembered
  change EStateM.bind c f _ = match EStateM.bind scope next remembered with
    | .ok b later => _
    | .error fault later => _
  rw [EStateM.bind, EStateM.bind, hc remembered]
  cases scope remembered with
  | ok a later => exact hf a later
  | error fault later => rfl

theorem Scoped.lift (e : Except SchemaError α) :
    Scoped inProgress (Compile.lift e) (Compile.lift e) := by
  cases e with
  | ok a => exact Scoped.pure a
  | error fault => exact Scoped.throw fault

theorem Scoped.map {c : CompileWith Compiler α} {scope : Compile α} (f : α → β)
    (hc : Scoped inProgress c scope) : Scoped inProgress (f <$> c) (f <$> scope) := by
  simp only [map_eq_pure_bind]
  exact hc.bind fun a => Scoped.pure (f a)

theorem Scoped.get_bind {f : Compiler → CompileWith Compiler α} {g : LayoutCache → Compile α}
    (h : ∀ remembered, Scoped inProgress (f ⟨remembered, inProgress⟩) (g remembered)) :
    Scoped inProgress (get >>= f) (get >>= g) :=
  fun remembered => h remembered remembered

/-- A struct that is entered is left again. -/
theorem Scoped.entering {type : String} {c : CompileWith Compiler α} {scope : Compile α}
    (hc : Scoped (type :: inProgress) c scope) : Scoped inProgress (entering type c) scope := by
  intro remembered
  rw [Compiler.entering, hc remembered]
  cases scope remembered <;> rfl

end Scoped

/-! ## Fields -/

section Fields

variable {inProgress : List String} {owner : String} {field : Field}

theorem scoped_element {nested : String → CompileWith Compiler Layout}
    {scope : String → Compile Layout} (hnested : ∀ type, Scoped inProgress (nested type) (scope type))
    (kind : ElementKind) :
    Scoped inProgress (Compile.element nested owner field kind)
      (Compile.element scope owner field kind) := by
  cases kind with
  | scalar type => exact Scoped.pure _
  | struct type =>
    refine (hnested type).bind fun layout => ?_
    split
    · exact Scoped.throw _
    · split
      · exact Scoped.throw _
      · exact Scoped.pure _

theorem scoped_codec {nested : String → CompileWith Compiler Layout} {scope : String → Compile Layout}
    (hnested : ∀ type, Scoped inProgress (nested type) (scope type)) (source : Option Nat) :
    Scoped inProgress (Compile.codec nested owner field source)
      (Compile.codec scope owner field source) := by
  unfold Compile.codec
  cases field.kind with
  | scalar type => exact Scoped.pure _
  | enumeration name repr =>
    dsimp only
    split
    · exact Scoped.pure _
    · exact Scoped.throw _
  | text => exact (Scoped.lift _).bind fun width => Scoped.pure _
  | array kind => exact (scoped_element hnested kind).bind fun element => Scoped.lift _
  | list kind => exact (scoped_element hnested kind).bind fun element => Scoped.lift _
  | struct type => exact (hnested type).bind fun layout => Scoped.pure _

variable {nested : String → String → CompileWith Compiler Layout}
  {scope : String → String → Compile Layout}
  (hnested : ∀ name type, Scoped inProgress (nested name type) (scope name type))
include hnested

theorem scoped_fieldCodec (ordered : List Field) (index : Nat) (field : Field) :
    Scoped inProgress (Compile.fieldCodec nested owner ordered index field)
      (Compile.fieldCodec scope owner ordered index field) := by
  unfold Compile.fieldCodec
  cases field.sizedBy with
  | none => exact (Scoped.pure none).bind fun source => scoped_codec (hnested field.name) source
  | some sizeField =>
    exact ((Scoped.lift _).map some).bind fun source => scoped_codec (hnested field.name) source

theorem scoped_fieldCodecs (ordered : List Field) (index : Nat) (rest : List Field) :
    Scoped inProgress (Compile.fieldCodecs nested owner ordered index rest)
      (Compile.fieldCodecs scope owner ordered index rest) := by
  induction rest generalizing index with
  | nil => exact Scoped.pure _
  | cons field rest ih =>
    exact (scoped_fieldCodec hnested ordered index field).bind fun codec =>
      (ih (index + 1)).bind fun codecs => Scoped.pure _

theorem scoped_fields (declared : List Field) (start : Nat) :
    Scoped inProgress (Compile.fields nested owner declared start)
      (Compile.fields scope owner declared start) := by
  refine (Scoped.lift _).bind fun ordered => ?_
  cases Compile.repeatedName? [] ordered with
  | some name => exact Scoped.throw _
  | none =>
    exact (scoped_fieldCodecs hnested ordered 0 ordered).bind fun codecs => Scoped.pure _

end Fields

/-! ## Structs and packets -/

section Structs

variable {table : TypeTable}

/-- A struct is remembered with the same structs in progress. -/
theorem scoped_remember {inProgress : List String} (type : String) (layout : Layout) :
    Scoped inProgress
      (do
        modify fun compiler => { compiler with remembered := (type, layout) :: compiler.remembered }
        pure layout)
      (do modify ((type, layout) :: ·); pure layout) :=
  fun _ => rfl

/-- One struct, once it is known of those inside it. -/
theorem scoped_structWith {inProgress : List String} {type : String}
    {inside : String → String → String → CompileWith Compiler Layout}
    (hinside : ∀ schema, table.find? type = some schema → type ∉ inProgress → ∀ name inner,
      Scoped (type :: inProgress) (inside schema.name name inner)
        (Compile.struct table (type :: inProgress) schema.name name inner))
    (owner field : String) :
    Scoped inProgress (structWith table inside owner field type)
      (Compile.struct table inProgress owner field type) := by
  rw [structWith, Compile.struct]
  refine Scoped.get_bind fun remembered => ?_
  dsimp only
  cases remembered.lookup type with
  | some layout => exact Scoped.pure layout
  | none =>
    dsimp only
    split
    · exact Scoped.throw _
    · next hfree =>
      cases hfind : table.find? type with
      | none => exact Scoped.throw _
      | some schema =>
        exact (scoped_fields (hinside schema hfind hfree) schema.fields 0).entering.bind fun layout =>
          scoped_remember type layout

/-- The depth is bookkeeping: where it is enough for the structs that are not in progress, the
structs in progress are those that led to the struct. The induction is on the depth. -/
theorem scoped_struct {depth : Nat} {inProgress : List String}
    (hdepth : (available table inProgress).length ≤ depth) (owner field type : String) :
    Scoped inProgress (struct table depth owner field type)
      (Compile.struct table inProgress owner field type) := by
  induction depth generalizing inProgress owner field type with
  | zero =>
    refine scoped_structWith (fun schema hfind hfree => ?_) owner field
    have := Compile.length_available_cons_lt hfind hfree
    omega
  | succ depth ih =>
    refine scoped_structWith (fun schema hfind hfree name inner => ?_) owner field
    have := Compile.length_available_cons_lt hfind hfree
    exact ih (by omega) schema.name name inner

theorem scoped_descriptor (schema : PacketSchema) :
    Scoped [] (descriptor table schema) (Compile.descriptor table schema) := by
  have hdepth : (available table []).length ≤ table.structs.length := List.length_filter_le _ _
  exact (scoped_fields (fun name type => scoped_struct hdepth schema.name name type) schema.fields
    schema.headerLength).bind fun layout => Scoped.pure _

end Structs

/-! ## One packet after another -/

/-- A compiler between two packets: no struct is in progress, and what is remembered is as it would
be compiled anew. -/
structure Idle (table : TypeTable) (compiler : Compiler) : Prop where
  inProgress : compiler.inProgress = []
  faithful : Faithful table compiler.remembered

theorem idle_new (table : TypeTable) : Idle table {} := ⟨rfl, Compile.faithful_nil table⟩

/-- A compiler that stands between two packets compiles a schema as it compiles on its own, and
stands between two packets again, whether the schema compiled or not. -/
theorem Idle.answer {table : TypeTable} {compiler : Compiler} (h : Idle table compiler)
    (schema : PacketSchema) :
    (answer table compiler schema).1 = schema.compile table ∧
      Idle table (answer table compiler schema).2 := by
  obtain ⟨remembered, _⟩ := compiler
  obtain ⟨rfl, hfaithful⟩ := h
  have hcompile := Compile.descriptor_eq_compile hfaithful schema
  rw [Compiler.answer, EStateM.run, scoped_descriptor schema remembered]
  cases hrun : Compile.descriptor table schema remembered with
  | ok d later =>
    rw [hrun] at hcompile
    exact ⟨hcompile.1.symm, rfl, hcompile.2⟩
  | error fault later =>
    rw [hrun] at hcompile
    exact ⟨hcompile.1.symm, rfl, hcompile.2⟩

theorem Idle.answers {table : TypeTable} {compiler : Compiler} (h : Idle table compiler)
    (schemas : List PacketSchema) :
    answers table compiler schemas = schemas.map (·.compile table) := by
  induction schemas generalizing compiler with
  | nil => rfl
  | cons schema rest ih =>
    obtain ⟨hanswer, hidle⟩ := h.answer schema
    rw [List.map_cons, ← hanswer, ← ih hidle]
    rfl

/-- Whatever schemas a compiler was asked for before, and whether they compiled or not, it answers
to each what a new compiler answers: the same descriptor, or the same fault. -/
theorem answers_eq_map_answer (table : TypeTable) (schemas : List PacketSchema) :
    answers table {} schemas = schemas.map fun schema => (answer table {} schema).1 := by
  rw [(idle_new table).answers]
  exact List.map_congr_left fun schema _ => ((idle_new table).answer schema).1.symm

/-- A tree of leaves is refused while its leaf is remembered, and so it is when it comes again. -/
example :
    let types : TypeTable :=
      { structs :=
          [{ name := "Leaf", fields := [{ name := "x", kind := .scalar .u16 }] },
            { name := "Tree", fields :=
              [{ name := "leaf", kind := .struct "Leaf" }, { name := "next", kind := .struct "Tree" }] }]
        nodup := by decide }
    let packet (type : String) : PacketSchema :=
      { name := type, header := 1, fields := [{ name := "root", kind := .struct type }] }
    (answers types {} [packet "Tree", packet "Leaf", packet "Tree"]).map
        (·.toOption.map (·.staticSize)) = [none, some 3, none] := by
  decide +kernel

end PacketWire.Compiler
