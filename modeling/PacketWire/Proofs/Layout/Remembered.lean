import PacketWire.Packet.Descriptor

/-!
# What is remembered makes no difference

Compiling remembers the structs it has met. The same can be done without a memory, compiling a
struct anew each time it is named: the outcome is the same, layout or fault, whatever was compiled
before.

* `Compile.Faithful`: a memory in which every struct is as it would be compiled anew.
* `Compile.Mirrors`: a computation does with such a memory what another one does without any.
* `Compile.mirrors_struct`: so it is with a struct, and by that with everything compiled.
* `Compile.descriptor_eq_compile`: a schema compiles behind others as it does on its own.
-/

namespace PacketWire.Compile

/-- The layout of a declared struct, compiled anew with all the structs in it. -/
def plainStruct (table : TypeTable) (inProgress : List String) (owner field type : String) :
    Compile Layout :=
  if _hfree : type ∈ inProgress then
    throw (.recursiveType type)
  else
    match _hfind : table.find? type with
    | none => throw (.unknownType owner field type)
    | some schema =>
      fields (plainStruct table (type :: inProgress) schema.name) schema.name schema.fields 0
termination_by (available table inProgress).length
decreasing_by exact length_available_cons_lt (by assumption) (by assumption)

section PlainStruct

variable {table : TypeTable} {inProgress : List String} {type : String}

theorem plainStruct_of_mem (h : type ∈ inProgress) (owner field : String) :
    plainStruct table inProgress owner field type = throw (.recursiveType type) := by
  rw [plainStruct, dif_pos h]

theorem plainStruct_of_unknown (h : type ∉ inProgress) (hfind : table.find? type = none)
    (owner field : String) :
    plainStruct table inProgress owner field type = throw (.unknownType owner field type) := by
  rw [plainStruct, dif_neg h]
  split
  · rfl
  · next found hfound =>
    rw [hfind] at hfound
    cases hfound

theorem plainStruct_of_find? (h : type ∉ inProgress) {schema : StructSchema}
    (hfind : table.find? type = some schema) (owner field : String) :
    plainStruct table inProgress owner field type =
      fields (plainStruct table (type :: inProgress) schema.name) schema.name schema.fields 0 := by
  rw [plainStruct, dif_neg h]
  split
  · next hnone =>
    rw [hfind] at hnone
    cases hnone
  · next found hfound =>
    rw [hfind] at hfound
    cases hfound
    rfl

end PlainStruct

/-! ## Faithful memories -/

/-- None of the structs being compiled is remembered yet. -/
def Free (cache : LayoutCache) (inProgress : List String) : Prop :=
  ∀ type ∈ inProgress, cache.lookup type = none

/-- Every struct that is remembered is as it would be compiled anew, wherever it is met while only
others are being compiled. -/
def Faithful (table : TypeTable) (cache : LayoutCache) : Prop :=
  ∀ type layout, cache.lookup type = some layout → ∀ inProgress, Free cache inProgress →
    ∀ owner field s, plainStruct table inProgress owner field type s = .ok layout s

/-- What is remembered stays so. -/
def Keeps (cache later : LayoutCache) : Prop :=
  ∀ type, later.lookup type = none → cache.lookup type = none

theorem Free.of_keeps {cache later : LayoutCache} {inProgress : List String}
    (h : Free later inProgress) (hkeeps : Keeps cache later) : Free cache inProgress :=
  fun type htype => hkeeps type (h type htype)

theorem free_nil (cache : LayoutCache) : Free cache [] := fun _ h => absurd h List.not_mem_nil

theorem faithful_nil (table : TypeTable) : Faithful table [] := fun _ _ h => by cases h

/-- One struct more: it is remembered, and everything else is as before. -/
theorem lookup_remember (cache : LayoutCache) (type other : String) (layout : Layout) :
    ((type, layout) :: cache).lookup other =
      if other = type then some layout else cache.lookup other := by
  rw [List.lookup_cons]
  by_cases h : other = type
  · simp [h]
  · simp [h, beq_false_of_ne h]

/-- A struct that compiles anew to a layout wherever it is met may be remembered with it. -/
theorem Faithful.remember {table : TypeTable} {cache : LayoutCache} (h : Faithful table cache)
    {type : String} {layout : Layout}
    (hplain : ∀ inProgress, Free ((type, layout) :: cache) inProgress →
      ∀ owner field s, plainStruct table inProgress owner field type s = .ok layout s) :
    Faithful table ((type, layout) :: cache) := by
  intro other found hfound inProgress hfree owner field s
  rw [lookup_remember] at hfound
  split at hfound
  · next heq =>
    cases hfound
    rw [heq]
    exact hplain inProgress hfree owner field s
  · refine h other found hfound inProgress (hfree.of_keeps fun third hthird => ?_) owner field s
    rw [lookup_remember] at hthird
    split at hthird
    · cases hthird
    · exact hthird

/-! ## Computations with and without a memory -/

/-- From a memory a computation comes to what another comes to without any, on the structs that are
being compiled. A result is the same whichever structs are being compiled, as long as they are not
remembered afterwards: whatever it depends on, is. -/
def MirrorsFrom {α : Type} (table : TypeTable) (inProgress : List String) (cache : LayoutCache)
    (c : Compile α) (plain : List String → Compile α) : Prop :=
  match c cache with
  | .ok a later =>
    (∀ others, Free later others → ∀ s, plain others s = .ok a s) ∧
      Faithful table later ∧ Free later inProgress ∧ Keeps cache later
  | .error fault later => (∀ s, plain inProgress s = .error fault s) ∧ Faithful table later

/-- So it is from every memory that is faithful and has none of the structs being compiled. -/
def Mirrors {α : Type} (table : TypeTable) (inProgress : List String) (c : Compile α)
    (plain : List String → Compile α) : Prop :=
  ∀ cache, Faithful table cache → Free cache inProgress →
    MirrorsFrom table inProgress cache c plain

section Mirrors

variable {α β : Type} {table : TypeTable} {inProgress : List String}

theorem Mirrors.pure (a : α) : Mirrors table inProgress (Pure.pure a) fun _ => Pure.pure a :=
  fun _ hcache hfree => ⟨fun _ _ _ => rfl, hcache, hfree, fun _ h => h⟩

theorem Mirrors.throw (fault : SchemaError) :
    Mirrors (α := α) table inProgress (throw fault) fun _ => throw fault :=
  fun _ hcache _ => ⟨fun _ => rfl, hcache⟩

theorem Mirrors.bind {c : Compile α} {plain : List String → Compile α} {f : α → Compile β}
    {plainNext : List String → α → Compile β} (hc : Mirrors table inProgress c plain)
    (hf : ∀ a, Mirrors table inProgress (f a) fun others => plainNext others a) :
    Mirrors table inProgress (c >>= f) fun others => plain others >>= plainNext others := by
  intro cache hcache hfree
  have hfirst := hc cache hcache hfree
  have hrun : ∀ (first : Compile α) (next : α → Compile β) (s : LayoutCache),
      (first >>= next) s = EStateM.bind first next s := fun _ _ _ => rfl
  unfold MirrorsFrom at hfirst ⊢
  simp only [hrun, EStateM.bind]
  cases hresult : c cache with
  | error fault later =>
    rw [hresult] at hfirst
    obtain ⟨hplain, hlater⟩ := hfirst
    exact ⟨fun s => by rw [hplain s], hlater⟩
  | ok a later =>
    rw [hresult] at hfirst
    obtain ⟨hplain, hlater, hstill, hkeeps⟩ := hfirst
    have hsecond := hf a later hlater hstill
    unfold MirrorsFrom at hsecond
    dsimp only
    cases hnext : f a later with
    | error fault last =>
      rw [hnext] at hsecond
      exact ⟨fun s => by rw [hplain inProgress hstill s]; exact hsecond.1 s, hsecond.2⟩
    | ok b last =>
      rw [hnext] at hsecond
      obtain ⟨hplainNext, hlast, hfinal, hkept⟩ := hsecond
      refine ⟨fun others hothers s => ?_, hlast, hfinal, fun type h => hkeeps type (hkept type h)⟩
      rw [hplain others (hothers.of_keeps hkept) s]
      exact hplainNext others hothers s

theorem Mirrors.map {c : Compile α} {plain : List String → Compile α} (f : α → β)
    (hc : Mirrors table inProgress c plain) :
    Mirrors table inProgress (f <$> c) fun others => f <$> plain others := by
  simp only [map_eq_pure_bind]
  exact hc.bind fun a => Mirrors.pure (f a)

theorem Mirrors.lift (e : Except SchemaError α) :
    Mirrors table inProgress (lift e) fun _ => lift e := by
  cases e with
  | ok a => exact Mirrors.pure a
  | error fault => exact Mirrors.throw fault

theorem Mirrors.get_bind {f : LayoutCache → Compile α} {plain : List String → Compile α}
    (h : ∀ cache, Faithful table cache → Free cache inProgress →
      MirrorsFrom table inProgress cache (f cache) plain) :
    Mirrors table inProgress (get >>= f) plain :=
  h

end Mirrors

/-! ## Fields -/

section Fields

variable {table : TypeTable} {inProgress : List String} {owner : String}

theorem mirrors_element {nested : String → Compile Layout}
    {plain : List String → String → Compile Layout} {field : Field} (kind : ElementKind)
    (hnested : ∀ type, Mirrors table inProgress (nested type) fun others => plain others type) :
    Mirrors table inProgress (element nested owner field kind)
      fun others => element (plain others) owner field kind := by
  cases kind with
  | scalar type => exact Mirrors.pure _
  | struct type =>
    refine (hnested type).bind fun layout => ?_
    split
    · exact Mirrors.throw _
    · split
      · exact Mirrors.throw _
      · exact Mirrors.pure _

theorem mirrors_codec {nested : String → Compile Layout}
    {plain : List String → String → Compile Layout} {field : Field} {source : Option Nat}
    (hnested : ∀ type, Mirrors table inProgress (nested type) fun others => plain others type) :
    Mirrors table inProgress (codec nested owner field source)
      fun others => codec (plain others) owner field source := by
  unfold codec
  cases field.kind with
  | scalar type => exact Mirrors.pure _
  | enumeration name repr =>
    dsimp only
    split
    · exact Mirrors.pure _
    · exact Mirrors.throw _
  | text => exact (Mirrors.lift _).bind fun width => Mirrors.pure _
  | array kind => exact (mirrors_element kind hnested).bind fun element => Mirrors.lift _
  | list kind => exact (mirrors_element kind hnested).bind fun element => Mirrors.lift _
  | struct type => exact (hnested type).bind fun layout => Mirrors.pure _

variable {nested : String → String → Compile Layout}
  {plain : List String → String → String → Compile Layout}
  (hnested : ∀ name type,
    Mirrors table inProgress (nested name type) fun others => plain others name type)
include hnested

theorem mirrors_fieldCodec (ordered : List Field) (index : Nat) (field : Field) :
    Mirrors table inProgress (fieldCodec nested owner ordered index field)
      fun others => fieldCodec (plain others) owner ordered index field := by
  unfold fieldCodec
  cases field.sizedBy with
  | none => exact (Mirrors.pure none).bind fun source => mirrors_codec (hnested field.name)
  | some sizeField =>
    exact ((Mirrors.lift _).map some).bind fun source => mirrors_codec (hnested field.name)

theorem mirrors_fieldCodecs (ordered : List Field) (index : Nat) (rest : List Field) :
    Mirrors table inProgress (fieldCodecs nested owner ordered index rest)
      fun others => fieldCodecs (plain others) owner ordered index rest := by
  induction rest generalizing index with
  | nil => exact Mirrors.pure _
  | cons field rest ih =>
    exact (mirrors_fieldCodec hnested ordered index field).bind fun codec =>
      (ih (index + 1)).bind fun codecs => Mirrors.pure _

theorem mirrors_fields (declared : List Field) (start : Nat) :
    Mirrors table inProgress (fields nested owner declared start)
      fun others => fields (plain others) owner declared start := by
  refine (Mirrors.lift _).bind fun ordered => ?_
  cases repeatedName? [] ordered with
  | some name => exact Mirrors.throw _
  | none => exact (mirrors_fieldCodecs hnested ordered 0 ordered).bind fun codecs => Mirrors.pure _

end Fields

/-! ## Structs and packets -/

/-- A struct whose fields compile as they do anew, with the struct itself among those being
compiled, may be remembered. -/
theorem mirrorsFrom_remember {table : TypeTable} {inProgress : List String} {type : String}
    {schema : StructSchema} (hfind : table.find? type = some schema) (hmem : type ∉ inProgress)
    {c : Compile Layout} {owner field : String}
    (hc : Mirrors table (type :: inProgress) c fun others =>
      fields (plainStruct table others schema.name) schema.name schema.fields 0)
    {cache : LayoutCache} (hcache : Faithful table cache) (hfree : Free cache inProgress)
    (hlookup : cache.lookup type = none) :
    MirrorsFrom table inProgress cache
      (do let layout ← c; modify ((type, layout) :: ·); pure layout)
      fun others => plainStruct table others owner field type := by
  have hrun := hc cache hcache fun other hother => by
    rcases List.mem_cons.mp hother with rfl | hother
    · exact hlookup
    · exact hfree other hother
  have hbind : ∀ s,
      (do let layout ← c; modify ((type, layout) :: ·); pure layout : Compile Layout) s =
      match c s with
      | .ok layout later => .ok layout ((type, layout) :: later)
      | .error fault later => .error fault later := fun s => by
    change EStateM.bind c _ s = _
    rw [EStateM.bind]
    cases c s <;> rfl
  unfold MirrorsFrom at hrun ⊢
  rw [hbind]
  cases hresult : c cache with
  | error fault later =>
    rw [hresult] at hrun
    exact ⟨fun s => (congrFun (plainStruct_of_find? hmem hfind owner field) s).trans (hrun.1 s),
      hrun.2⟩
  | ok layout later =>
    rw [hresult] at hrun
    obtain ⟨hfields, hlater, hstill, hkeeps⟩ := hrun
    have hnone : later.lookup type = none := hstill type List.mem_cons_self
    have hkept : Keeps later ((type, layout) :: later) := fun other hother => by
      rw [lookup_remember] at hother
      split at hother
      · cases hother
      · exact hother
    have hresult : ∀ others, Free ((type, layout) :: later) others →
        ∀ owner field s, plainStruct table others owner field type s = .ok layout s := by
      intro others hothers owner field s
      have hnot : type ∉ others := fun h => by
        have := hothers type h
        rw [lookup_remember, if_pos rfl] at this
        cases this
      rw [plainStruct_of_find? hnot hfind]
      refine hfields (type :: others) (fun other hother => ?_) s
      rcases List.mem_cons.mp hother with rfl | hother
      · exact hnone
      · exact hothers.of_keeps hkept other hother
    refine ⟨fun others hothers s => hresult others hothers owner field s, hlater.remember hresult,
      fun other hother => ?_, fun other hother => hkeeps other (hkept other hother)⟩
    have hne : other ≠ type := fun h => hmem (h ▸ hother)
    rw [lookup_remember, if_neg hne]
    exact hstill other (List.mem_cons_of_mem _ hother)

/-- A struct compiles as it does anew; the induction is on the types that are not being compiled. -/
theorem mirrors_struct (table : TypeTable) (inProgress : List String) (owner field type : String) :
    Mirrors table inProgress (struct table inProgress owner field type)
      fun others => plainStruct table others owner field type := by
  induction inProgress, owner, field, type using struct.induct table with
  | case1 inProgress owner field type ih =>
    rw [struct]
    refine Mirrors.get_bind fun cache hcache hfree => ?_
    cases hlookup : cache.lookup type with
    | some layout =>
      exact ⟨fun others hothers s => hcache type layout hlookup others hothers owner field s,
        hcache, hfree, fun _ h => h⟩
    | none =>
      dsimp only
      split
      · next hmem =>
        exact ⟨fun s => congrFun (plainStruct_of_mem hmem owner field) s, hcache⟩
      · next hmem =>
        split
        · next hfind =>
          exact ⟨fun s => congrFun (plainStruct_of_unknown hmem hfind owner field) s, hcache⟩
        · next schema hfind =>
          exact mirrorsFrom_remember hfind hmem
            (mirrors_fields (fun name inner => ih hmem schema hfind name inner) schema.fields 0)
            hcache hfree hlookup

/-- The descriptor of a schema whose structs are compiled anew. -/
def plainDescriptor (table : TypeTable) (inProgress : List String) (schema : PacketSchema) :
    Compile Descriptor := do
  return .ofSchema schema (← fields (plainStruct table inProgress schema.name) schema.name
    schema.fields schema.headerLength)

theorem mirrors_descriptor (table : TypeTable) (schema : PacketSchema) :
    Mirrors table [] (descriptor table schema)
      fun others => plainDescriptor table others schema :=
  (mirrors_fields (fun name type => mirrors_struct table [] schema.name name type) schema.fields
    schema.headerLength).bind fun _ => Mirrors.pure _

/-- Where no struct is being compiled, the outcome is that without a memory. -/
theorem Mirrors.eq_plain {α : Type} {table : TypeTable} {c : Compile α}
    {plain : List String → Compile α} (h : Mirrors table [] c plain) {cache : LayoutCache}
    (hcache : Faithful table cache) :
    match c cache with
    | .ok a later => plain [] [] = .ok a [] ∧ Faithful table later
    | .error fault later => plain [] [] = .error fault [] ∧ Faithful table later := by
  have hrun := h cache hcache (free_nil cache)
  unfold MirrorsFrom at hrun
  cases hresult : c cache with
  | ok a later =>
    rw [hresult] at hrun
    exact ⟨hrun.1 [] (free_nil later) [], hrun.2.1⟩
  | error fault later =>
    rw [hresult] at hrun
    exact ⟨hrun.1 [], hrun.2⟩

/-- What a computation comes to from an empty memory. -/
def outcome {α : Type} (c : Compile α) : Except SchemaError α :=
  match c.run [] with
  | .ok a _ => .ok a
  | .error fault _ => .error fault

theorem outcome_map {α β : Type} (f : α → β) (c : Compile α) :
    outcome (f <$> c) = (outcome c).map f := by
  have hrun : (f <$> c).run [] = EStateM.map f c [] := rfl
  rw [outcome, hrun, EStateM.map, outcome, EStateM.run]
  cases c [] <;> rfl

theorem Mirrors.outcome_eq {α : Type} {table : TypeTable} {c : Compile α}
    {plain : List String → Compile α} (h : Mirrors table [] c plain) :
    outcome c = outcome (plain []) := by
  have hrun := h.eq_plain (faithful_nil table)
  rw [outcome, outcome, EStateM.run, EStateM.run]
  cases hresult : c [] with
  | ok a later =>
    rw [hresult] at hrun
    rw [hrun.1]
  | error fault later =>
    rw [hresult] at hrun
    rw [hrun.1]

/-- A packet compiles as it does without a memory. -/
theorem compile_eq_outcome (table : TypeTable) (schema : PacketSchema) :
    schema.compile table = outcome (plainDescriptor table [] schema) := by
  rw [← (mirrors_descriptor table schema).outcome_eq, PacketSchema.compile, outcome]
  cases (descriptor table schema).run [] <;> rfl

/-- A schema compiles behind others as it does on its own, and what is remembered stays faithful,
also when it does not compile. -/
theorem descriptor_eq_compile {table : TypeTable} {cache : LayoutCache} (h : Faithful table cache)
    (schema : PacketSchema) :
    match descriptor table schema cache with
    | .ok d later => schema.compile table = .ok d ∧ Faithful table later
    | .error fault later => schema.compile table = .error fault ∧ Faithful table later := by
  have hbehind := (mirrors_descriptor table schema).eq_plain h
  rw [compile_eq_outcome, outcome, EStateM.run]
  cases hrun : descriptor table schema cache with
  | ok d later =>
    rw [hrun] at hbehind
    rw [hbehind.1]
    exact ⟨rfl, hbehind.2⟩
  | error fault later =>
    rw [hrun] at hbehind
    rw [hbehind.1]
    exact ⟨rfl, hbehind.2⟩

end PacketWire.Compile
