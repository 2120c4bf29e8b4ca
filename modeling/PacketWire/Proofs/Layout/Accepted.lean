import Mathlib.Data.List.Forall2
import PacketWire.Proofs.Layout.Compiled
import PacketWire.Proofs.Schema.Conform

/-!
# Which schemas compile

Compiling decides whether declarations conform. It looks at the structs one after another, and
remembers those that compiled; what it remembers conforms, so that a struct is as good as its
fields.

`Decides` is what a computation finds out: it succeeds when a condition holds and fails when the
condition does not, and whatever happens the remembered structs conform.

* `Decides.bind`: conditions are decided one after another.
* `decides_struct`: a struct compiles when it conforms, by induction on the types that are not being
  compiled; one that is met again while it is being compiled contains itself.
* `PacketSchema.compile_succeeds_iff`: a packet compiles when its fields conform and the structs in
  its arrays take bytes.
-/

namespace PacketWire

/-- What is asked of every list of fields: what is said of it, and that arrays have a stride. -/
def TypeTable.Suits (table : TypeTable) (declared : List Field) : Prop :=
  table.Admits declared ∧ table.Strides declared

namespace Compile

/-! ## What is decided -/

/-- What is known of the layout of a struct. -/
structure Settles (table : TypeTable) (type : String) (layout : Layout) : Prop where
  accepts : table.Accepts table.Suits type
  varies : layout.isDynamic = true ↔ table.Varies type
  takesBytes : layout.isDynamic = false → (0 < layout.staticSize ↔ table.TakesBytes type)

/-- Every struct that is remembered conforms. -/
def Knows (table : TypeTable) (cache : LayoutCache) : Prop :=
  ∀ type layout, cache.lookup type = some layout → Settles table type layout

/-- The computation succeeds when a condition holds, and then its result has a property; it fails
when the condition does not hold. -/
def Decides {α : Type} (table : TypeTable) (c : Compile α) (P : Prop) (Q : α → Prop) : Prop :=
  ∀ cache, Knows table cache →
    match c cache with
    | .ok a cache' => (P ∧ Q a) ∧ Knows table cache'
    | .error _ cache' => ¬P ∧ Knows table cache'

section Decides

variable {α β : Type} {table : TypeTable} {P S : Prop} {Q : α → Prop} {R : β → Prop}

theorem Decides.pure {a : α} (hP : P) (h : Q a) : Decides table (Pure.pure a) P Q :=
  fun _ hcache => ⟨⟨hP, h⟩, hcache⟩

theorem Decides.throw {fault : SchemaError} (h : ¬P) :
    Decides table (throw fault : Compile α) P Q :=
  fun _ hcache => ⟨h, hcache⟩

/-- A condition that needs another one is decided behind it. -/
theorem Decides.bind {c : Compile α} {f : α → Compile β} (hc : Decides table c P Q) (hneeds : S → P)
    (hf : ∀ a, P → Q a → Decides table (f a) S R) : Decides table (c >>= f) S R := by
  intro cache hcache
  have hfirst := hc cache hcache
  change match EStateM.bind c f cache with
    | .ok a cache' => (S ∧ R a) ∧ Knows table cache'
    | .error _ cache' => ¬S ∧ Knows table cache'
  rw [EStateM.bind]
  cases hrun : c cache with
  | error fault cache' =>
    rw [hrun] at hfirst
    exact ⟨fun hS => hfirst.1 (hneeds hS), hfirst.2⟩
  | ok a cache' =>
    rw [hrun] at hfirst
    exact hf a hfirst.1.1 hfirst.1.2 cache' hfirst.2

theorem Decides.map {c : Compile α} {f : α → β} (hc : Decides table c P Q)
    (hf : ∀ a, P → Q a → R (f a)) : Decides table (f <$> c) P R := by
  rw [map_eq_pure_bind]
  exact hc.bind id fun a hP ha => Decides.pure hP (hf a hP ha)

theorem Decides.lift {e : Except SchemaError α} (hok : ∀ a, e = .ok a → P ∧ Q a)
    (herror : ∀ fault, e = .error fault → ¬P) : Decides table (lift e) P Q := by
  cases e with
  | ok a => exact Decides.pure (hok a rfl).1 (hok a rfl).2
  | error fault => exact Decides.throw (herror fault rfl)

theorem Decides.get_bind {f : LayoutCache → Compile α}
    (h : ∀ cache, Knows table cache → Decides table (f cache) P Q) :
    Decides table (get >>= f) P Q :=
  fun cache hcache => h cache hcache cache hcache

/-- Remembering a layout that is settled. -/
theorem Decides.remember {type : String} {layout : Layout} (h : Settles table type layout) :
    Decides table (do modify ((type, layout) :: ·); return layout)
      (table.Accepts table.Suits type) (Settles table type) := by
  intro cache hcache
  refine ⟨⟨h.accepts, h⟩, fun other found hfound => ?_⟩
  rw [List.lookup_cons] at hfound
  split at hfound
  · next heq =>
    cases hfound
    exact beq_iff_eq.mp heq ▸ h
  · exact hcache other found hfound

end Decides

/-! ## One field -/

section Field

variable {table : TypeTable} {owner : String} {ordered : List Field} {index : Nat} {field : Field}

/-- A size field is found when it comes earlier and is an integer. -/
theorem resolveSource_error (hnames : (ordered.map (·.name)).Nodup) {sizeField : String}
    {fault : SchemaError} (h : resolveSource owner ordered index field sizeField = .error fault) :
    ¬Field.CarriedBefore ordered index sizeField := by
  rintro ⟨i, carrier, type, hlt, hcarrier, hname, hcounter⟩
  obtain ⟨hi, hget⟩ := List.getElem?_eq_some_iff.mp hcarrier
  have hfind : ordered.findIdx? (·.name == sizeField) = some i := by
    refine List.findIdx?_eq_some_iff_getElem.mpr ⟨hi, by simp [hget, hname], fun j hj => ?_⟩
    -- an earlier field of that name would be the same field
    intro hsame
    have hj' : j < ordered.length := by omega
    have heq : (ordered.map (·.name))[j]? = (ordered.map (·.name))[i]? := by
      rw [List.getElem?_map, List.getElem?_map, hcarrier, List.getElem?_eq_getElem hj']
      simpa [hname] using hsame
    have := (List.getElem?_inj (by simpa using hj') hnames).mp heq
    omega
  unfold resolveSource at h
  rw [hfind] at h
  dsimp only at h
  rw [if_neg (by omega), hcarrier, Option.bind_some, hcounter] at h
  cases h

/-- What is asked of a field and of the structs it refers to. -/
structure SuitsField (table : TypeTable) (ordered : List Field) (index : Nat) (field : Field) :
    Prop where
  admits : table.AdmitsField ordered index field
  strides : ∀ type, field.kind.elementType? = some type → table.TakesBytes type
  accepts : ∀ type, field.kind.type? = some type → table.Accepts table.Suits type

/-- What the codec of a field tells of its size. -/
structure Measured (table : TypeTable) (field : Field) (codec : FieldCodec Layout) : Prop where
  varies : codec.span? = none ↔ ¬table.FieldVaries field
  takesBytes : codec.span? = none → (0 < codec.staticWidth ↔ table.FieldTakesBytes field)

/-- What is expected of the compilation of the structs that a kind refers to. -/
def NestedDecides (table : TypeTable) (nested : String → Compile Layout) (kind : FieldKind) :
    Prop :=
  ∀ type, kind.type? = some type →
    Decides table (nested type) (table.Accepts table.Suits type) (Settles table type)

/-- The structs in an array conform, are all of one size and take bytes. -/
theorem decides_element {nested : String → Compile Layout} {kind : ElementKind}
    (hnested : ∀ type, kind.type? = some type →
      Decides table (nested type) (table.Accepts table.Suits type) (Settles table type)) :
    Decides table (element nested owner field kind)
      (∀ type, kind.type? = some type →
        table.Accepts table.Suits type ∧ ¬table.Varies type ∧ table.TakesBytes type)
      fun codec => 0 < codec.size := by
  cases kind with
  | scalar type => exact Decides.pure nofun type.width_pos
  | struct type =>
    refine (hnested type rfl).bind (fun h => (h type rfl).1) fun layout _ hsettles => ?_
    by_cases hdynamic : layout.isDynamic = true
    · rw [if_pos hdynamic]
      exact Decides.throw fun h => (h type rfl).2.1 (hsettles.varies.mp hdynamic)
    · rw [if_neg hdynamic]
      have htakes := hsettles.takesBytes (Bool.eq_false_iff.mpr hdynamic)
      by_cases hzero : layout.staticSize = 0
      · rw [if_pos hzero]
        exact Decides.throw fun h => absurd (htakes.mpr (h type rfl).2.2) (by omega)
      · rw [if_neg hzero]
        refine Decides.pure ?_ (Nat.pos_of_ne_zero hzero)
        rintro _ ⟨⟩
        exact ⟨hsettles.accepts, fun hvaries => hdynamic (hsettles.varies.mpr hvaries),
          htakes.mp (Nat.pos_of_ne_zero hzero)⟩

theorem text_error {length source : Option Nat} {fault : SchemaError}
    (h : text owner field length source = .error fault) :
    ¬((∃ n, length = some n ∧ 0 < n) ∨ length = none ∧ source.isSome = true) := by
  unfold text at h
  split at h
  · simp
  · cases h
  · cases h
  · simp

theorem collection_error {element : ElementCodec Layout} {length source : Option Nat}
    {fault : SchemaError} (h : collection owner field element length source = .error fault) :
    ¬((∃ n, length = some n ∧ 0 < n) ∨ length = none ∧ source.isSome = true) := by
  unfold collection at h
  split at h
  · simp
  · cases h
  · cases h
  · simp

theorem measured_of_fixed {codec : FieldCodec Layout} (hspan : codec.span? = none)
    (hpos : 0 < codec.staticWidth) (hvaries : ¬table.FieldVaries field)
    (hkind : ∀ inner, field.kind ≠ .struct inner) : Measured table field codec where
  varies := iff_of_true hspan hvaries
  takesBytes := fun _ => iff_of_true hpos fun inner h => absurd h (hkind inner)

theorem measured_of_counted {codec : FieldCodec Layout} (hspan : codec.span? ≠ none)
    (hcounted : field.isCounted = true) : Measured table field codec where
  varies := iff_of_false hspan fun h => h (.inl hcounted)
  takesBytes := fun h => absurd h hspan

/-- A field without a struct and without a count. -/
theorem not_fieldVaries (hcounted : field.isCounted = false) (htype : field.kind.type? = none) :
    ¬table.FieldVaries field := by
  rintro (h | ⟨inner, hinner, -⟩)
  · simp [hcounted] at h
  · simp [htype] at hinner

variable {nested : String → Compile Layout} {source : Option Nat}
  (hnested : NestedDecides table nested field.kind)
  (hsource : source.isSome = field.sizedBy.isSome)
  (hcarried : ∀ sizeField, field.sizedBy = some sizeField →
    Field.CarriedBefore ordered index sizeField)
include hsource hcarried

theorem decides_text (hkind : field.kind = .text) :
    Decides table (do return .text (← lift (text owner field field.length source)))
      (SuitsField table ordered index field) (Measured table field) := by
  have hlength : field.HasLength ↔
      (∃ n, field.length = some n ∧ 0 < n) ∨ field.length = none ∧ source.isSome = true := by
    rw [Field.HasLength, hkind, hsource]
  have hlift : Decides table (lift (text owner field field.length source)) field.HasLength
      fun width => text owner field field.length source = .ok width := by
    refine Decides.lift (fun width hwidth => ⟨hlength.mpr ?_, hwidth⟩) fun fault hfault => ?_
    · rcases text_ok hwidth with ⟨bytes, hbytes, hpos, -⟩ | ⟨hnone, i, hi, -⟩
      · exact .inl ⟨bytes, hbytes, hpos⟩
      · exact .inr ⟨hnone, by rw [hi]; rfl⟩
    · rw [hlength]
      exact text_error hfault
  refine hlift.bind (fun h => h.admits.length) fun width hlong hwidth => ?_
  have hsuits : SuitsField table ordered index field :=
    ⟨⟨hcarried, by simp [hkind], hlong, by simp [hkind, FieldKind.elementType?]⟩,
      by simp [hkind, FieldKind.elementType?], by simp [hkind, FieldKind.type?]⟩
  rcases text_ok hwidth with ⟨bytes, hbytes, hpos, rfl⟩ | ⟨hnone, i, -, rfl⟩
  · have hcounted : field.isCounted = false := by simp [Field.isCounted, hkind, hbytes]
    exact Decides.pure hsuits (measured_of_fixed rfl hpos
      (not_fieldVaries hcounted (by rw [hkind]; rfl)) (by simp [hkind]))
  · exact Decides.pure hsuits (measured_of_counted (by simp [FieldCodec.span?])
      (by simp [Field.isCounted, hkind, hnone]))

include hnested

theorem decides_collection {kind : ElementKind} {length : Option Nat}
    (hkind : field.kind = .array kind ∧ length = field.length ∨
      field.kind = .list kind ∧ length = none) :
    Decides table (do
        let element ← element nested owner field kind
        lift (collection owner field element length source))
      (SuitsField table ordered index field) (Measured table field) := by
  have htype : field.kind.type? = kind.type? ∧ field.kind.elementType? = kind.type? := by
    rcases hkind with ⟨hkind, -⟩ | ⟨hkind, -⟩ <;> rw [hkind] <;> exact ⟨rfl, rfl⟩
  have hstruct : ∀ inner, field.kind ≠ .struct inner := by
    rcases hkind with ⟨hkind, -⟩ | ⟨hkind, -⟩ <;> simp [hkind]
  have henumeration : ∀ name repr, field.kind ≠ .enumeration name repr := by
    rcases hkind with ⟨hkind, -⟩ | ⟨hkind, -⟩ <;> simp [hkind]
  have hcounted : field.isCounted = length.isNone := by
    rcases hkind with ⟨hkind, rfl⟩ | ⟨hkind, rfl⟩ <;> simp [Field.isCounted, hkind]
  have hlength : field.HasLength ↔
      (∃ n, length = some n ∧ 0 < n) ∨ length = none ∧ source.isSome = true := by
    rcases hkind with ⟨hkind, rfl⟩ | ⟨hkind, rfl⟩ <;> simp [Field.HasLength, hkind, hsource]
  rw [NestedDecides, htype.1] at hnested
  refine (decides_element hnested).bind (fun h type hinner => ?_) fun element helements hsize => ?_
  · exact ⟨h.accepts type (htype.1 ▸ hinner), h.admits.elements type (htype.2 ▸ hinner),
      h.strides type (htype.2 ▸ hinner)⟩
  · have hsuits (hlong : field.HasLength) : SuitsField table ordered index field :=
      ⟨⟨hcarried, fun name repr h => absurd h (henumeration name repr), hlong,
          fun type h => (helements type (htype.2 ▸ h)).2.1⟩,
        fun type h => (helements type (htype.2 ▸ h)).2.2,
        fun type h => (helements type (htype.1 ▸ h)).1⟩
    refine Decides.lift (fun codec hcodec => ?_) fun fault hfault h => ?_
    · rcases collection_ok hcodec with ⟨n, hn, hpos, rfl⟩ | ⟨hnone, i, hi, rfl⟩
      · refine ⟨hsuits (hlength.mpr (.inl ⟨n, hn, hpos⟩)),
          measured_of_fixed rfl (Nat.mul_pos hsize hpos) ?_ hstruct⟩
        rintro (h | ⟨inner, hinner, hvaries⟩)
        · simp [hcounted, hn] at h
        · exact (helements inner (htype.1 ▸ hinner)).2.1 hvaries
      · exact ⟨hsuits (hlength.mpr (.inr ⟨hnone, by rw [hi]; rfl⟩)),
          measured_of_counted (by simp [FieldCodec.span?]) (by rw [hcounted, hnone]; rfl)⟩
    · exact collection_error hfault (hlength.mp h.admits.length)

/-- A field compiles when it suits. -/
theorem decides_codec : Decides table (codec nested owner field source)
    (SuitsField table ordered index field) (Measured table field) := by
  unfold codec
  cases hkind : field.kind with
  | scalar type =>
    refine Decides.pure ⟨⟨hcarried, by simp [hkind], by simp [Field.HasLength, hkind], ?_⟩, ?_, ?_⟩
      (measured_of_fixed rfl type.width_pos (not_fieldVaries ?_ ?_) ?_) <;>
    simp [hkind, FieldKind.elementType?, FieldKind.type?, Field.isCounted]
  | enumeration name repr =>
    dsimp only
    by_cases hinteger : repr.isInteger = true
    · rw [if_pos hinteger]
      refine Decides.pure ⟨⟨hcarried, ?_, by simp [Field.HasLength, hkind], ?_⟩, ?_, ?_⟩
        (measured_of_fixed rfl repr.width_pos (not_fieldVaries ?_ ?_) ?_) <;>
      simp [hkind, FieldKind.elementType?, FieldKind.type?, Field.isCounted, hinteger]
    · rw [if_neg hinteger]
      exact Decides.throw fun h => hinteger (h.admits.enumeration name repr hkind)
  | text => exact decides_text hsource hcarried hkind
  | array kind => exact decides_collection hnested hsource hcarried (.inl ⟨hkind, rfl⟩)
  | list kind => exact decides_collection hnested hsource hcarried (.inr ⟨hkind, rfl⟩)
  | struct type =>
    have htype : field.kind.type? = some type := by rw [hkind]; rfl
    refine (hnested type htype).bind (fun h => h.accepts type htype)
      fun layout haccepts hsettles => ?_
    refine Decides.pure ⟨⟨hcarried, by simp [hkind], by simp [Field.HasLength, hkind], ?_⟩, ?_, ?_⟩
      ⟨?_, ?_⟩
    · simp [hkind, FieldKind.elementType?]
    · simp [hkind, FieldKind.elementType?]
    · rw [htype]
      rintro _ ⟨⟩
      exact haccepts
    · have hfield : table.FieldVaries field ↔ table.Varies type := by
        simp [TypeTable.FieldVaries, Field.isCounted, hkind, FieldKind.type?]
      rw [hfield, ← hsettles.varies]
      simp [FieldCodec.span?]
    · intro hspan
      have hdynamic : layout.isDynamic = false := by simpa [FieldCodec.span?] using hspan
      have hfield : table.FieldTakesBytes field ↔ table.TakesBytes type := by
        simp [TypeTable.FieldTakesBytes, hkind]
      rw [hfield, ← hsettles.takesBytes hdynamic]
      rfl

omit hsource hcarried hnested in
theorem decides_fieldCodec {nested : String → String → Compile Layout}
    (hnames : (ordered.map (·.name)).Nodup)
    (hnested : NestedDecides table (nested field.name) field.kind) :
    Decides table (fieldCodec nested owner ordered index field)
      (SuitsField table ordered index field) (Measured table field) := by
  unfold fieldCodec
  cases hsized : field.sizedBy with
  | none =>
    exact Decides.bind (P := True) (Q := fun source => source = none) (Decides.pure trivial rfl)
      (fun _ => trivial) fun source _ hsource =>
        decides_codec hnested (by rw [hsource, hsized]; rfl) (by simp [hsized])
  | some sizeField =>
    have hresolve : Decides table (lift (resolveSource owner ordered index field sizeField))
        (Field.CarriedBefore ordered index sizeField) fun _ => True := by
      refine Decides.lift (fun i hi => ⟨?_, trivial⟩) fun fault hfault =>
        resolveSource_error hnames hfault
      obtain ⟨hlt, ⟨carrier, hcarrier, hname⟩, _, type, hget, hcounter⟩ :=
        resolveSource_ok hsized hi
      rw [hcarrier] at hget
      cases hget
      rw [hsized, Option.some.injEq] at hname
      exact ⟨i, carrier, type, hlt, hcarrier, hname.symm, hcounter⟩
    refine Decides.bind (Q := fun source => source.isSome = true)
      (hresolve.map fun _ _ _ => rfl) (fun h => h.admits.sizedBy sizeField hsized)
      fun source hcarried hsource => decides_codec hnested (by rw [hsource, hsized]; rfl) ?_
    intro other hother
    rw [hsized, Option.some.injEq] at hother
    exact hother ▸ hcarried

omit hsource hcarried hnested in
theorem decides_fieldCodecs {nested : String → String → Compile Layout}
    (hnames : (ordered.map (·.name)).Nodup) {fields : List Field}
    (hnested : ∀ field ∈ fields, NestedDecides table (nested field.name) field.kind) :
    Decides table (fieldCodecs nested owner ordered index fields)
      (∀ k field, fields[k]? = some field → SuitsField table ordered (index + k) field)
      (List.Forall₂ (Measured table) fields) := by
  induction fields generalizing index with
  | nil => exact Decides.pure (by simp) .nil
  | cons field fields ih =>
    refine (decides_fieldCodec hnames (hnested field (by simp))).bind (fun h => h 0 field rfl)
      fun codec hsuits hmeasured => ?_
    refine (ih fun other hother => hnested other (by simp [hother])).bind ?_
      fun codecs hrest hcodecs => Decides.pure ?_ (.cons hmeasured hcodecs)
    · intro h k other hother
      rw [Nat.add_right_comm]
      exact h (k + 1) other hother
    · intro k other hother
      cases k with
      | zero =>
        cases hother
        exact hsuits
      | succ k =>
        have := hrest k other hother
        rwa [Nat.add_right_comm] at this

end Field

/-! ## A list of fields -/

section Measured

variable {table : TypeTable} {fields : List Field} {codecs : List (FieldCodec Layout)}
  (h : List.Forall₂ (Measured table) fields codecs)
include h

theorem span?_eq_none_iff : (∀ codec ∈ codecs, codec.span? = none) ↔
    ¬∃ field ∈ fields, table.FieldVaries field := by
  induction h with
  | nil => simp
  | cons hfirst _ ih => simp [hfirst.varies, ih]

theorem sum_staticWidth_pos_iff (hspan : ∀ codec ∈ codecs, codec.span? = none) :
    0 < (codecs.map (·.staticWidth)).sum ↔ ∃ field ∈ fields, table.FieldTakesBytes field := by
  induction h with
  | nil => simp
  | @cons field codec fields codecs hfirst _ ih =>
    obtain ⟨hnone, hrest⟩ := List.forall_mem_cons.mp hspan
    simp only [List.map_cons, List.sum_cons, List.mem_cons, exists_eq_or_imp, ← ih hrest,
      ← hfirst.takesBytes hnone]
    omega

end Measured

/-- What the layout of a list of fields tells of its size. -/
structure Sized (table : TypeTable) (declared : List Field) (start : Nat) (layout : Layout) :
    Prop where
  varies : layout.isDynamic = true ↔ ∃ field ∈ declared, table.FieldVaries field
  takesBytes : layout.isDynamic = false → start = 0 →
    (0 < layout.staticSize ↔ ∃ field ∈ declared, table.FieldTakesBytes field)

theorem sized_of_tiled {table : TypeTable} {declared ordered : List Field} {start : Nat}
    {layout : Layout} (hperm : ordered.Perm declared)
    (htiled : Tiled 0 ⟨start, []⟩ layout.fields layout.stop)
    (hcodecs : List.Forall₂ (Measured table) ordered (layout.fields.map (·.codec))) :
    Sized table declared start layout := by
  have hmem (P : Field → Prop) : (∃ field ∈ ordered, P field) ↔ ∃ field ∈ declared, P field := by
    simp only [hperm.mem_iff]
  have hspans : layout.isDynamic = false ↔
      ∀ codec ∈ layout.fields.map (·.codec), codec.span? = none := by
    rw [List.forall_mem_map]
    simp [Layout.isDynamic, Offset.isStatic, htiled.terms_eq_nil_iff]
  constructor
  · rw [← hmem, ← not_iff_not, Bool.not_eq_true, hspans]
    exact span?_eq_none_iff hcodecs
  · intro hdynamic hstart
    rw [← hmem, ← sum_staticWidth_pos_iff hcodecs (hspans.mp hdynamic), Layout.staticSize,
      htiled.constant_eq, List.map_map, hstart, Nat.zero_add]
    rfl

/-- What is asked of a list of fields is asked of each of them in its place. -/
theorem conforms_suits_iff {table : TypeTable} {declared : List Field}
    (hplaces : Field.PlacesFit declared) (hnames : (declared.map (·.name)).Nodup) :
    table.Conforms table.Suits declared ↔ ∀ i field, (Field.finalOrder declared)[i]? = some field →
      SuitsField table (Field.finalOrder declared) i field := by
  have hperm := Field.finalOrder_perm hplaces
  rw [TypeTable.conforms_iff]
  constructor
  · rintro ⟨⟨hadmits, hstrides⟩, haccepts⟩ i field hfield
    have hmem := hperm.mem_iff.mp (List.mem_of_getElem? hfield)
    exact ⟨hadmits.fields i field hfield, hstrides field hmem, haccepts field hmem⟩
  · intro h
    have hsuits : ∀ field ∈ declared, ∃ i,
        SuitsField table (Field.finalOrder declared) i field := by
      intro field hfield
      obtain ⟨i, hi⟩ := List.getElem?_of_mem (hperm.mem_iff.mpr hfield)
      exact ⟨i, h i field hi⟩
    refine ⟨⟨⟨hplaces, hnames, fun i field hfield => (h i field hfield).admits⟩, ?_⟩, ?_⟩
    · intro field hfield
      obtain ⟨i, hi⟩ := hsuits field hfield
      exact hi.strides
    · intro field hfield
      obtain ⟨i, hi⟩ := hsuits field hfield
      exact hi.accepts

/-- A list of fields compiles when it conforms. -/
theorem decides_fields {table : TypeTable} {nested : String → String → Compile Layout}
    {owner : String} {declared : List Field} {start : Nat}
    (hnested : ∀ field ∈ declared, NestedDecides table (nested field.name) field.kind) :
    Decides table (fields nested owner declared start) (table.Conforms table.Suits declared)
      (Sized table declared start) := by
  have hlift : Decides table (lift (Field.wireOrder owner declared)) (Field.PlacesFit declared)
      fun ordered => Field.finalOrder declared = ordered := by
    refine Decides.lift (fun ordered h => Field.wireOrder_eq_ok_iff.mp h) fun fault hfault h => ?_
    rw [Field.wireOrder_eq_ok_iff.mpr ⟨h, rfl⟩] at hfault
    cases hfault
  refine hlift.bind (fun h => h.fields.1.places) fun ordered hplaces hordered => ?_
  subst hordered
  have hperm := Field.finalOrder_perm hplaces
  have hnodup : ((Field.finalOrder declared).map (·.name)).Nodup ↔ (declared.map (·.name)).Nodup :=
    (hperm.map _).nodup_iff
  cases hnames : repeatedName? [] (Field.finalOrder declared) with
  | some name =>
    refine Decides.throw fun h => ?_
    rw [repeatedName?_eq_none_iff.mpr ⟨hnodup.mpr h.fields.1.names, by simp⟩] at hnames
    cases hnames
  | none =>
    have hfinal := (repeatedName?_eq_none_iff.mp hnames).1
    have hconforms : table.Conforms table.Suits declared ↔ _ :=
      conforms_suits_iff hplaces (hnodup.mp hfinal)
    refine (decides_fieldCodecs hfinal fun field hfield =>
      hnested field (hperm.mem_iff.mp hfield)).bind (fun h => ?_) fun codecs hsuits hcodecs => ?_
    · intro k field hfield
      rw [Nat.zero_add]
      exact hconforms.mp h k field hfield
    · simp only [Nat.zero_add] at hsuits
      have hlength := hcodecs.length_eq.symm
      refine Decides.pure (hconforms.mpr hsuits) (sized_of_tiled hperm (tiled_placeAll _ codecs 0
        (Cursor.start start) _ (map_offset_slots (length_offsets hlength _ _))) ?_)
      rwa [map_codec_assemble hlength]

/-! ## Structs and packets -/

/-- A struct compiles when it conforms; the induction is on the types that are not being compiled.
The types that are being compiled refer to the struct, so that it contains itself when it is one of
them. -/
theorem decides_struct (table : TypeTable) (inProgress : List String) (owner field type : String)
    (hrefers : ∀ outer ∈ inProgress, Relation.TransGen table.Refers outer type) :
    Decides table (struct table inProgress owner field type) (table.Accepts table.Suits type)
      (Settles table type) := by
  induction inProgress, owner, field, type using struct.induct table with
  | case1 inProgress owner field type ih =>
    rw [struct]
    refine Decides.get_bind fun cache hcache => ?_
    cases hlookup : cache.lookup type with
    | some layout =>
      have hsettles := hcache type layout hlookup
      exact Decides.pure hsettles.accepts hsettles
    | none =>
      dsimp only
      split
      · next hmem => exact Decides.throw fun h => (h type .refl).2 (hrefers type hmem)
      · next hfree =>
        split
        · next hfind =>
          refine Decides.throw fun h => ?_
          obtain ⟨schema, hschema⟩ := h.exists_find?
          rw [hfind] at hschema
          cases hschema
        · next schema hfind =>
          have hfields : Decides table (fields (struct table (type :: inProgress) schema.name)
              schema.name schema.fields 0) (table.Conforms table.Suits schema.fields)
              (Sized table schema.fields 0) := by
            refine decides_fields fun field hfield inner hinner => ?_
            have hstep : table.Refers type inner := ⟨schema, hfind, field, hfield, hinner⟩
            refine ih hfree schema hfind field.name inner fun outer houter => ?_
            rcases List.mem_cons.mp houter with rfl | houter
            · exact .single hstep
            · exact (hrefers outer houter).tail hstep
          refine hfields.bind (TypeTable.accepts_iff hfind).mp fun layout hconforms hsized => ?_
          refine Decides.remember ⟨(TypeTable.accepts_iff hfind).mpr hconforms, ?_, ?_⟩
          · rw [hsized.varies, TypeTable.varies_iff hfind]
          · intro hdynamic
            rw [hsized.takesBytes hdynamic rfl, TypeTable.takesBytes_iff hfind]

theorem decides_descriptor (table : TypeTable) (schema : PacketSchema) :
    Decides table (descriptor table schema) (table.Conforms table.Suits schema.fields)
      fun d => Sized table schema.fields schema.headerLength d.layout := by
  have hpacket : Decides table (packet table schema) (table.Conforms table.Suits schema.fields)
      (Sized table schema.fields schema.headerLength) :=
    decides_fields fun field _ type _ =>
      decides_struct table [] schema.name field.name type (by simp)
  exact hpacket.bind id fun _ hconforms hsized => Decides.pure hconforms hsized

/-! ## What is compiled before -/

/-- What is compiled with the structs remembered so far. -/
inductive Request where
  | packet (schema : PacketSchema)
  | struct (owner field type : String)

/-- What a computation remembers, also when it fails. -/
def after {α : Type} (c : Compile α) (cache : LayoutCache) : LayoutCache :=
  match c cache with
  | .ok _ cache' => cache'
  | .error _ cache' => cache'

/-- What is remembered behind a request. -/
def Request.run (table : TypeTable) (cache : LayoutCache) : Request → LayoutCache
  | .packet schema => after (descriptor table schema) cache
  | .struct owner field type => after (Compile.struct table [] owner field type) cache

/-- What is remembered behind requests, of which some may have failed. -/
def remembered (table : TypeTable) (requests : List Request) : LayoutCache :=
  requests.foldl (Request.run table) []

theorem knows_nil (table : TypeTable) : Knows table [] := by
  simp [Knows]

theorem Decides.knows_after {α : Type} {table : TypeTable} {c : Compile α} {P : Prop}
    {Q : α → Prop} {cache : LayoutCache} (h : Decides table c P Q) (hcache : Knows table cache) :
    Knows table (after c cache) := by
  have hrun := h cache hcache
  unfold after
  split at hrun
  · exact hrun.2
  · exact hrun.2

/-- A computation succeeds when what it decides holds. -/
theorem Decides.succeeds_iff {α : Type} {table : TypeTable} {c : Compile α} {P : Prop}
    {Q : α → Prop} {cache : LayoutCache} (h : Decides table c P Q) (hcache : Knows table cache) :
    (∃ a cache', c cache = .ok a cache') ↔ P := by
  have hrun := h cache hcache
  cases heq : c cache with
  | ok a cache' =>
    rw [heq] at hrun
    exact iff_of_true ⟨a, cache', rfl⟩ hrun.1.1
  | error fault cache' =>
    rw [heq] at hrun
    exact iff_of_false nofun hrun.1

theorem knows_remembered (table : TypeTable) (requests : List Request) :
    Knows table (remembered table requests) := by
  have hrun (cache : LayoutCache) (hcache : Knows table cache) :
      Knows table (requests.foldl (Request.run table) cache) := by
    induction requests generalizing cache with
    | nil => exact hcache
    | cons request requests ih =>
      refine ih _ ?_
      cases request with
      | packet schema => exact (decides_descriptor table schema).knows_after hcache
      | struct owner field type =>
        exact (decides_struct table [] owner field type (by simp)).knows_after hcache
  exact hrun [] (knows_nil table)

end Compile

namespace PacketSchema

theorem exists_compile_iff {schema : PacketSchema} {table : TypeTable} :
    (∃ d, schema.compile table = .ok d) ↔
      ∃ d cache, Compile.descriptor table schema [] = .ok d cache := by
  unfold PacketSchema.compile EStateM.run
  cases Compile.descriptor table schema [] with
  | ok d cache => simp
  | error fault cache => simp

/-- A packet compiles exactly when its fields conform, with any type table, whether it is compiled
on its own or behind other packets and structs, of which some may have been refused. -/
theorem compile_succeeds_iff (table : TypeTable) (schema : PacketSchema) :
    ((∃ d, schema.compile table = .ok d) ↔ table.Conforms table.Suits schema.fields) ∧
      ∀ earlier : List Compile.Request,
        (∃ d cache, Compile.descriptor table schema (Compile.remembered table earlier) =
            .ok d cache) ↔
          table.Conforms table.Suits schema.fields := by
  have hdecides := Compile.decides_descriptor table schema
  constructor
  · rw [exists_compile_iff]
    exact hdecides.succeeds_iff (Compile.knows_nil table)
  · intro earlier
    exact hdecides.succeeds_iff (Compile.knows_remembered table earlier)

/-- A compiled packet is of variable length exactly when some part of it, at any depth, is counted. -/
theorem isDynamic_iff {schema : PacketSchema} {table : TypeTable} {d : Descriptor}
    (hcompile : schema.compile table = .ok d) :
    d.isDynamic = true ↔ ∃ field ∈ schema.fields, table.FieldVaries field := by
  have hrun := Compile.decides_descriptor table schema [] (Compile.knows_nil table)
  unfold PacketSchema.compile EStateM.run at hcompile
  cases heq : Compile.descriptor table schema [] with
  | ok found cache =>
    rw [heq] at hcompile hrun
    cases hcompile
    exact hrun.1.2.varies
  | error fault cache =>
    rw [heq] at hcompile
    cases hcompile

/-- A type without fields. -/
def hollowTypes : TypeTable := ⟨[⟨"Hollow", []⟩], by simp⟩

/-- A packet with an array of such a type. -/
def hollowCells : PacketSchema where
  name := "Cells"
  header := 0x30
  fields := [{ name := "cells", kind := .array (.struct "Hollow"), length := some 1 }]

theorem hollowTypes_refers {outer inner : String} : ¬hollowTypes.Refers outer inner := by
  rintro ⟨schema, hfind, field, hfield, -⟩
  have hmem := List.mem_of_find?_eq_some hfind
  rw [hollowTypes, List.mem_singleton] at hmem
  simp [hmem] at hfield

/-- Elements that take no bytes are refused, whatever else is in order. -/
theorem compile_hollowCells : hollowTypes.Conforms hollowTypes.Admits hollowCells.fields ∧
    hollowCells.compile hollowTypes = .error (.zeroLength "Cells" "cells") := by
  have hfields : hollowCells.fields =
      [{ name := "cells", kind := .array (.struct "Hollow"), length := some 1 }] := rfl
  have hfind : hollowTypes.find? "Hollow" = some ⟨"Hollow", []⟩ := rfl
  have hvaries : ¬hollowTypes.Varies "Hollow" := by
    rw [TypeTable.varies_iff hfind]
    simp
  have hcells : hollowTypes.Admits hollowCells.fields := by
    have hunplaced : ∀ field ∈ hollowCells.fields, field.position = none := by
      simp [hfields]
    obtain ⟨hplaces, horder⟩ := Field.finalOrder_of_unplaced hunplaced
    refine ⟨hplaces, by simp [hfields], fun i field hfield => ?_⟩
    rw [horder, hfields, List.getElem?_singleton] at hfield
    split at hfield
    · cases hfield
      exact ⟨by simp, by simp, .inl ⟨1, rfl, by simp⟩, by rintro _ ⟨⟩; exact hvaries⟩
    · cases hfield
  have hempty : hollowTypes.Admits [] :=
    ⟨by simp [Field.PlacesFit, Field.places], by simp,
      by simp [Field.finalOrder, Field.placed, Field.unplaced]⟩
  refine ⟨⟨hcells, ?_⟩, ?_⟩
  · rintro type ⟨field, hfield, first, hfirst, hreach⟩
    rw [hfields, List.mem_singleton] at hfield
    subst hfield
    cases hfirst
    rcases Relation.ReflTransGen.cases_head hreach with rfl | ⟨next, hnext, -⟩
    · refine ⟨⟨⟨"Hollow", []⟩, hfind, hempty⟩, fun hcycle => ?_⟩
      obtain ⟨next, hnext, -⟩ := Relation.TransGen.head'_iff.mp hcycle
      exact hollowTypes_refers hnext
    · exact absurd hnext hollowTypes_refers
  · have hrun : (hollowCells.compile hollowTypes).map (fun _ => ()) =
        .error (.zeroLength "Cells" "cells") := by
      decide +kernel
    cases h : hollowCells.compile hollowTypes with
    | ok d => simp [h, Except.map] at hrun
    | error fault =>
      rw [h] at hrun
      cases hrun
      rfl

end PacketSchema

end PacketWire
