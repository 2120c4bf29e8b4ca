import Mathlib.Data.List.Basic
import Mathlib.Data.List.Nodup
import PacketWire.Proofs.Layout.Compiled
import PacketWire.Proofs.Layout.Remembered
import PacketWire.Proofs.Schema.Conform
import PacketWire.Proofs.Schema.Order

/-!
# The order of construction

A decoded record lists the fields that are bound to the constructor first and the properties behind
them, each group as it was declared, whatever the order on the wire. So does every struct inside.

* `Field.constructionOrder`: declared fields in that order.
* `Layout.At`, `TypeTable.fieldsAt?`: the layouts, and the declarations, found inside under a path
  of field names.
* `Compile.builtNames_assemble`: one layout lists the names of its fields in that order.
* `PacketSchema.lists_of_compile`: so does every layout inside a compiled packet.
-/

namespace PacketWire

/-- The fields in the order in which a value is constructed from them: those bound to the
constructor, then the properties, each group in declaration order. -/
def Field.constructionOrder (declared : List Field) : List Field :=
  declared.filter (·.binding.isConstructor) ++ declared.filter (!·.binding.isConstructor)

/-- The names of the fields as a decoded record lists them. -/
def Layout.builtNames (layout : Layout) : List String :=
  layout.buildOrder.filterMap ((layout.fields.map (·.name))[·]?)

/-- A layout found inside another under a path of field names. -/
inductive Layout.At : Layout → List String → Layout → Prop
  | here (layout : Layout) : At layout [] layout
  | inside {layout inner found : Layout} {field : FieldLayout Layout} {path : List String} :
      field ∈ layout.fields → inner ∈ field.codec.nested → At inner path found →
      At layout (field.name :: path) found

/-- The fields of the struct declared for a path of field names, which starts in the declared
fields. -/
def TypeTable.fieldsAt? (table : TypeTable) : List Field → List String → Option (List Field)
  | declared, [] => some declared
  | declared, name :: path => do
    let field ← declared.find? (·.name == name)
    let type ← field.kind.type?
    let schema ← table.find? type
    table.fieldsAt? schema.fields path

/-- Every layout inside lists the fields declared for its path, each once, in the order of
construction. -/
def Layout.Lists (table : TypeTable) (declared : List Field) (layout : Layout) : Prop :=
  ∀ path inner, layout.At path inner → ∃ fields, table.fieldsAt? declared path = some fields ∧
    (fields.map (·.name)).Nodup ∧
    inner.builtNames = (Field.constructionOrder fields).map (·.name)

theorem Field.constructionOrder_perm (declared : List Field) :
    (constructionOrder declared).Perm declared :=
  List.filter_append_perm _ declared

namespace Compile

/-! ## One layout -/

/-- What the build order goes by, and the name that comes with it. -/
structure BuildKey where
  isProperty : Bool
  declared : Nat
  name : String

/-- Constructor-bound fields come before properties, and then earlier declarations before later
ones. -/
def BuildKey.before (a b : BuildKey) : Bool :=
  (!a.isProperty && b.isProperty) || (a.isProperty == b.isProperty && a.declared ≤ b.declared)

/-- The key of a slot. -/
def slotKey (slot : Slot) : BuildKey := ⟨!slot.binding.isConstructor, slot.declared, slot.name⟩

/-- The key of a declared field. -/
def fieldKey (declared : List Field) (field : Field) : BuildKey :=
  ⟨!field.binding.isConstructor, declared.findIdx (·.name == field.name), field.name⟩

section BuildOrder

theorem BuildKey.before_iff {a b : BuildKey} : a.before b = true ↔
    (a.isProperty = false ∧ b.isProperty = true) ∨
      (a.isProperty = b.isProperty ∧ a.declared ≤ b.declared) := by
  simp [before]

theorem BuildKey.before_trans (a b c : BuildKey) (hab : a.before b = true)
    (hbc : b.before c = true) : a.before c = true := by
  rw [before_iff] at *
  rcases hab with ⟨ha, hb⟩ | ⟨hab, hle⟩
  · rcases hbc with ⟨hb', -⟩ | ⟨hbc, -⟩
    · rw [hb] at hb'
      cases hb'
    · exact .inl ⟨ha, hbc ▸ hb⟩
  · rcases hbc with ⟨hb, hc⟩ | ⟨hbc, hle'⟩
    · exact .inl ⟨hab ▸ hb, hc⟩
    · exact .inr ⟨hab.trans hbc, Nat.le_trans hle hle'⟩

theorem BuildKey.before_total (a b : BuildKey) : (a.before b || b.before a) = true := by
  rw [Bool.or_eq_true, before_iff, before_iff]
  cases a.isProperty <;> cases b.isProperty <;> simp [Nat.le_total]

/-- Keys that may stand either way round have one index. -/
theorem BuildKey.declared_eq_of_before {a b : BuildKey} (hab : a.before b = true)
    (hba : b.before a = true) : a.declared = b.declared := by
  rw [before_iff] at hab hba
  rcases hab with ⟨ha, hb⟩ | ⟨hsame, hle⟩ <;> rcases hba with ⟨hb', ha'⟩ | ⟨hsame', hle'⟩
  · simp [ha] at ha'
  · simp [ha, hb] at hsame'
  · simp [ha', hb'] at hsame
  · omega

/-- The names in build order are those of the keys once they are sorted. -/
theorem names_buildOrder (slots : List Slot) :
    ∃ keys : List BuildKey, keys.Perm (slots.map slotKey) ∧
      keys.Pairwise (fun a b => a.before b = true) ∧
      (buildOrder slots).filterMap ((slots.map (·.name))[·]?) = keys.map (·.name) := by
  let before : Slot × Nat → Slot × Nat → Bool := fun a b => (slotKey a.1).before (slotKey b.1)
  let sorted := slots.zipIdx.mergeSort before
  have hsorted : sorted.Pairwise (fun a b => before a b = true) :=
    List.pairwise_mergeSort (fun a b c => BuildKey.before_trans (slotKey a.1) (slotKey b.1) _)
      (fun a b => BuildKey.before_total (slotKey a.1) (slotKey b.1)) slots.zipIdx
  have hperm : (sorted.map (·.1)).Perm slots := by
    have := (List.mergeSort_perm slots.zipIdx before).map (·.1)
    rwa [List.zipIdx_map_fst] at this
  refine ⟨sorted.map fun entry => slotKey entry.1, ?_, List.pairwise_map.mpr hsorted, ?_⟩
  · have := hperm.map slotKey
    rwa [List.map_map] at this
  · have horder : buildOrder slots = sorted.map (·.2) := rfl
    -- sorting moves a slot together with its index
    rw [horder, List.filterMap_map, List.map_map, List.filterMap_eq_map_iff_forall_eq_some]
    rintro ⟨slot, i⟩ hentry
    have hslot : slots[i]? = some slot :=
      List.mem_zipIdx_iff_getElem?.mp (List.mem_mergeSort.mp hentry)
    simp [hslot, slotKey]

variable {declared : List Field} (hnames : (declared.map (·.name)).Nodup)
include hnames

/-- A field is found under its name at its own index. -/
theorem findIdx_name {i : Nat} (hi : i < declared.length) :
    declared.findIdx (·.name == declared[i].name) = i := by
  refine (List.findIdx_eq hi).mpr ⟨beq_self_eq_true _, fun j hj => ?_⟩
  rw [beq_eq_false_iff_ne]
  intro hsame
  have hj' : j < declared.length := by omega
  have hget : (declared.map (·.name))[j]? = (declared.map (·.name))[i]? := by
    simp [hi, hj', hsame]
  have := (List.getElem?_inj (by simpa using hj') hnames).mp hget
  omega

/-- The fields in the order of construction are sorted by their keys. -/
theorem pairwise_constructionOrder :
    ((Field.constructionOrder declared).map (fieldKey declared)).Pairwise
      (fun a b => a.before b = true) := by
  have hdeclared : declared.Pairwise fun a b =>
      (fieldKey declared a).declared ≤ (fieldKey declared b).declared := by
    rw [List.pairwise_iff_getElem]
    intro i j hi hj hlt
    simp only [fieldKey, findIdx_name hnames hi, findIdx_name hnames hj]
    omega
  have hgroup (p : Bool) :
      (declared.filter (fun field => field.binding.isConstructor == p)).Pairwise fun a b =>
        (fieldKey declared a).before (fieldKey declared b) = true := by
    refine (hdeclared.filter _).imp_of_mem fun ha hb hle => BuildKey.before_iff.mpr (.inr ⟨?_, hle⟩)
    simp only [List.mem_filter, beq_iff_eq] at ha hb
    simp only [fieldKey, ha.2, hb.2]
  rw [List.pairwise_map, Field.constructionOrder, List.pairwise_append]
  refine ⟨by simpa using hgroup true, by simpa using hgroup false, fun a ha b hb => ?_⟩
  simp only [List.mem_filter, Bool.not_eq_true'] at ha hb
  exact BuildKey.before_iff.mpr (.inl (by simp [fieldKey, ha.2, hb.2]))

/-- Two fields of one key are one. -/
theorem eq_of_declared_eq {a b : Field} (ha : a ∈ declared) (hb : b ∈ declared)
    (h : (fieldKey declared a).declared = (fieldKey declared b).declared) : a = b := by
  obtain ⟨i, hi, rfl⟩ := List.mem_iff_getElem.mp ha
  obtain ⟨j, hj, rfl⟩ := List.mem_iff_getElem.mp hb
  simp only [fieldKey, findIdx_name hnames hi, findIdx_name hnames hj] at h
  simp only [h]

omit hnames in
theorem map_slotKey_slots {ordered : List Field} (hsubset : ∀ field ∈ ordered, field ∈ declared)
    (codecs : List (FieldCodec Layout)) {offsets : List Offset}
    (hoffsets : offsets.length = ordered.length) :
    (slots declared ordered codecs offsets).map slotKey = ordered.map (fieldKey declared) := by
  have hentry : ∀ entry ∈ (ordered.zip offsets).zipIdx,
      slotKey { name := entry.1.1.name
                offset := entry.1.2
                binding := entry.1.1.binding
                declared := (declared.findIdx? (·.name == entry.1.1.name)).getD entry.2
                dependents := dependentsOf codecs entry.2 } = fieldKey declared entry.1.1 := by
    rintro ⟨⟨field, offset⟩, index⟩ hentry
    have hzip := List.mem_of_getElem? (List.mem_zipIdx_iff_getElem?.mp hentry)
    have hfield := hsubset field (List.of_mem_zip hzip).1
    have hfind := List.findIdx?_eq_some_of_exists (p := fun other => other.name == field.name)
      ⟨field, hfield, beq_self_eq_true _⟩
    simp only [slotKey, fieldKey, hfind, Option.getD_some]
  rw [slots, List.map_map]
  refine (List.map_congr_left hentry).trans ?_
  have hfst : (ordered.zip offsets).zipIdx.map (fun entry => fieldKey declared entry.1.1) =
      (((ordered.zip offsets).zipIdx.map (·.1)).map (·.1)).map (fieldKey declared) := by
    rw [List.map_map, List.map_map]
    rfl
  rw [hfst, List.zipIdx_map_fst, List.map_fst_zip (by omega)]

/-- Fields in whatever order on the wire are built in the order of construction. -/
theorem names_buildOrder_slots {ordered : List Field} (hperm : ordered.Perm declared)
    (codecs : List (FieldCodec Layout)) {offsets : List Offset}
    (hoffsets : offsets.length = ordered.length) :
    (buildOrder (slots declared ordered codecs offsets)).filterMap ((ordered.map (·.name))[·]?) =
      (Field.constructionOrder declared).map (·.name) := by
  have hslots := map_slotKey_slots (fun field => hperm.mem_iff.mp) codecs hoffsets
  have hslotNames : (slots declared ordered codecs offsets).map (·.name) =
      ordered.map (·.name) := by
    have := congrArg (List.map BuildKey.name) hslots
    rwa [List.map_map, List.map_map] at this
  obtain ⟨keys, hkeys, hsorted, hbuilt⟩ := names_buildOrder (slots declared ordered codecs offsets)
  rw [hslots] at hkeys
  rw [hslotNames] at hbuilt
  have hconstruction : keys.Perm ((Field.constructionOrder declared).map (fieldKey declared)) :=
    hkeys.trans ((hperm.trans (Field.constructionOrder_perm declared).symm).map _)
  have heq : keys = (Field.constructionOrder declared).map (fieldKey declared) := by
    refine hconstruction.eq_of_pairwise ?_ hsorted (pairwise_constructionOrder hnames)
    intro a b ha hb hab hba
    obtain ⟨f, hf, rfl⟩ := List.mem_map.mp (hconstruction.mem_iff.mp ha)
    obtain ⟨g, hg, rfl⟩ := List.mem_map.mp hb
    have hf' := (Field.constructionOrder_perm declared).mem_iff.mp hf
    have hg' := (Field.constructionOrder_perm declared).mem_iff.mp hg
    rw [eq_of_declared_eq hnames hf' hg' (BuildKey.declared_eq_of_before hab hba)]
  rw [hbuilt, heq, List.map_map]
  rfl

/-- A layout lists the names of its declared fields in the order of construction. -/
theorem builtNames_assemble {owner : String} {ordered : List Field} {start : Nat}
    {codecs : List (FieldCodec Layout)} (hperm : ordered.Perm declared)
    (hlength : codecs.length = ordered.length) :
    (assemble owner declared ordered start codecs).builtNames =
      (Field.constructionOrder declared).map (·.name) := by
  rw [Layout.builtNames, map_name_assemble hlength]
  exact names_buildOrder_slots hnames hperm codecs (length_offsets hlength _ _)

end BuildOrder

/-! ## What compiling returns -/

/-- The computation gives the result, from some memory. -/
def Returns {α : Type} (c : Compile α) (a : α) : Prop := ∃ s s', c s = .ok a s'

section Returns

variable {α β : Type}

theorem Returns.of_outcome {c : Compile α} {a : α} (h : outcome c = .ok a) : Returns c a := by
  rw [outcome, EStateM.run] at h
  cases hc : c [] with
  | ok b later =>
    rw [hc] at h
    cases h
    exact ⟨[], later, hc⟩
  | error fault later =>
    rw [hc] at h
    cases h

theorem Returns.pure {a b : α} (h : Returns (Pure.pure a) b) : a = b := by
  obtain ⟨s, s', h⟩ := h
  cases h
  rfl

theorem not_returns_throw {fault : SchemaError} {a : α} : ¬Returns (throw fault) a := by
  rintro ⟨s, s', h⟩
  cases h

theorem Returns.bind {c : Compile α} {f : α → Compile β} {b : β} (h : Returns (c >>= f) b) :
    ∃ a, Returns c a ∧ Returns (f a) b := by
  obtain ⟨s, s', h⟩ := h
  change EStateM.bind c f s = _ at h
  rw [EStateM.bind] at h
  cases hc : c s with
  | ok a later =>
    rw [hc] at h
    exact ⟨a, ⟨s, later, hc⟩, later, s', h⟩
  | error fault later =>
    rw [hc] at h
    cases h

theorem Returns.lift {e : Except SchemaError α} {a : α} (h : Returns (lift e) a) : e = .ok a := by
  cases e with
  | ok b => exact congrArg Except.ok (Returns.pure h)
  | error fault => exact absurd h not_returns_throw

end Returns

section Fields

variable {owner : String} {field : Field} {inner : Layout}

/-- A layout inside the elements is what the struct that they are compiles to. -/
theorem Returns.element {nested : String → Compile Layout} {kind : ElementKind}
    {codec : ElementCodec Layout} (h : Returns (element nested owner field kind) codec)
    (hinner : inner ∈ codec.nested) : ∃ type, kind.type? = some type ∧ Returns (nested type) inner := by
  cases kind with
  | scalar type =>
    cases Returns.pure h
    cases hinner
  | struct type =>
    obtain ⟨layout, hlayout, h⟩ := h.bind
    split at h
    · exact absurd h not_returns_throw
    · split at h
      · exact absurd h not_returns_throw
      · cases Returns.pure h
        rw [List.mem_singleton.mp hinner]
        exact ⟨type, rfl, hlayout⟩

theorem nested_of_collection {element : ElementCodec Layout} {length source : Option Nat}
    {codec : FieldCodec Layout} (h : collection owner field element length source = .ok codec) :
    codec.nested = element.nested := by
  rcases collection_ok h with ⟨n, -, -, rfl⟩ | ⟨-, i, -, rfl⟩ <;> rfl

/-- A layout inside a field is what the struct that its kind names compiles to. -/
theorem Returns.codec {nested : String → Compile Layout} {source : Option Nat}
    {found : FieldCodec Layout} (h : Returns (codec nested owner field source) found)
    (hinner : inner ∈ found.nested) :
    ∃ type, field.kind.type? = some type ∧ Returns (nested type) inner := by
  unfold Compile.codec at h
  cases hkind : field.kind with
  | scalar type =>
    rw [hkind] at h
    cases Returns.pure h
    cases hinner
  | enumeration name repr =>
    rw [hkind] at h
    dsimp only at h
    split at h
    · cases Returns.pure h
      cases hinner
    · exact absurd h not_returns_throw
  | text =>
    rw [hkind] at h
    obtain ⟨width, -, h⟩ := h.bind
    cases Returns.pure h
    cases hinner
  | array kind =>
    rw [hkind] at h
    obtain ⟨element, helement, h⟩ := h.bind
    rw [nested_of_collection h.lift] at hinner
    exact helement.element hinner
  | list kind =>
    rw [hkind] at h
    obtain ⟨element, helement, h⟩ := h.bind
    rw [nested_of_collection h.lift] at hinner
    exact helement.element hinner
  | struct type =>
    rw [hkind] at h
    obtain ⟨layout, hlayout, h⟩ := h.bind
    cases Returns.pure h
    rw [List.mem_singleton.mp hinner]
    exact ⟨type, rfl, hlayout⟩

variable {nested : String → String → Compile Layout} {ordered : List Field} {index : Nat}

theorem Returns.fieldCodec {found : FieldCodec Layout}
    (h : Returns (fieldCodec nested owner ordered index field) found)
    (hinner : inner ∈ found.nested) :
    ∃ type, field.kind.type? = some type ∧ Returns (nested field.name type) inner := by
  unfold Compile.fieldCodec at h
  cases hsized : field.sizedBy with
  | none =>
    rw [hsized] at h
    obtain ⟨source, -, h⟩ := h.bind
    exact h.codec hinner
  | some sizeField =>
    rw [hsized] at h
    obtain ⟨source, -, h⟩ := h.bind
    exact h.codec hinner

/-- Each field has the codec that it compiles to in its place. -/
theorem Returns.fieldCodecs {rest : List Field} {codecs : List (FieldCodec Layout)}
    (h : Returns (fieldCodecs nested owner ordered index rest) codecs) :
    codecs.length = rest.length ∧ ∀ k field codec, rest[k]? = some field →
      codecs[k]? = some codec →
      Returns (Compile.fieldCodec nested owner ordered (index + k) field) codec := by
  induction rest generalizing index codecs with
  | nil =>
    cases Returns.pure h
    exact ⟨rfl, by simp⟩
  | cons first rest ih =>
    obtain ⟨codec, hcodec, h⟩ := h.bind
    obtain ⟨later, hlater, h⟩ := h.bind
    cases Returns.pure h
    obtain ⟨hlength, hrest⟩ := ih hlater
    refine ⟨by simp [hlength], fun k other otherCodec hother hotherCodec => ?_⟩
    cases k with
    | zero =>
      cases hother
      cases hotherCodec
      exact hcodec
    | succ k =>
      have := hrest k other otherCodec hother hotherCodec
      rwa [Nat.add_right_comm] at this

/-- A list of fields compiles to the layout of its fields in wire order. -/
theorem Returns.fields {declared : List Field} {start : Nat} {layout : Layout}
    (h : Returns (fields nested owner declared start) layout) :
    ∃ ordered codecs, Field.wireOrder owner declared = .ok ordered ∧
      (ordered.map (·.name)).Nodup ∧ codecs.length = ordered.length ∧
      (∀ i field codec, ordered[i]? = some field → codecs[i]? = some codec →
        Returns (Compile.fieldCodec nested owner ordered i field) codec) ∧
      layout = assemble owner declared ordered start codecs := by
  obtain ⟨ordered, hordered, h⟩ := h.bind
  cases hnames : repeatedName? [] ordered with
  | some name =>
    rw [hnames] at h
    exact absurd h not_returns_throw
  | none =>
    rw [hnames] at h
    obtain ⟨codecs, hcodecs, h⟩ := h.bind
    obtain ⟨hlength, heach⟩ := hcodecs.fieldCodecs
    simp only [Nat.zero_add] at heach
    exact ⟨ordered, codecs, hordered.lift, (repeatedName?_eq_none_iff.mp hnames).1, hlength,
      heach, (Returns.pure h).symm⟩

end Fields

/-! ## Layouts that list their fields in the order of construction -/

section Lists

variable {table : TypeTable} {nested : String → String → Compile Layout}

/-- What has a name of its own is found under it. -/
theorem find?_name {α : Type} {name : α → String} {as : List α} (hnames : (as.map name).Nodup) {a : α}
    (ha : a ∈ as) : as.find? (fun other => name other == name a) = some a := by
  cases hfind : as.find? (fun other => name other == name a) with
  | none => simpa using List.find?_eq_none.mp hfind a ha
  | some found =>
    have hname : name found = name a := by simpa using List.find?_some hfind
    rw [List.inj_on_of_nodup_map hnames (List.mem_of_find?_eq_some hfind) ha hname]

theorem lists_fields
    (hnested : ∀ name type inner, Returns (nested name type) inner →
      ∃ schema, table.find? type = some schema ∧ inner.Lists table schema.fields)
    {owner : String} {declared : List Field} {start : Nat} {layout : Layout}
    (h : Returns (fields nested owner declared start) layout) : layout.Lists table declared := by
  obtain ⟨ordered, codecs, hordered, hnames, hlength, hcodecs, rfl⟩ := h.fields
  obtain ⟨hfit, rfl⟩ := Field.wireOrder_eq_ok_iff.mp hordered
  have hperm := Field.finalOrder_perm hfit
  have hdeclared : (declared.map (·.name)).Nodup := (hperm.map _).nodup_iff.mp hnames
  intro path inner hat
  cases hat with
  | here =>
    exact ⟨declared, rfl, hdeclared, builtNames_assemble hdeclared hperm hlength⟩
  | inside hfield hinner hpath =>
    obtain ⟨i, hi⟩ := List.getElem?_of_mem hfield
    obtain ⟨hcodec, -, declaration, hdeclaration, hname⟩ := getElem?_assemble hi
    obtain ⟨type, htype, hreturns⟩ := (hcodecs i _ _ hdeclaration hcodec).fieldCodec hinner
    obtain ⟨schema, hfind, hlists⟩ := hnested _ _ _ hreturns
    obtain ⟨found, hfound, hbuilt⟩ := hlists _ _ hpath
    have hmem : declaration ∈ declared := hperm.mem_iff.mp (List.mem_of_getElem? hdeclaration)
    refine ⟨found, ?_, hbuilt⟩
    rw [TypeTable.fieldsAt?, hname, find?_name hdeclared hmem]
    simp only [Option.bind_eq_bind, Option.bind_some, htype, hfind, hfound]

/-- The layout of a struct lists its fields; the induction is on the types that are not being
compiled. -/
theorem lists_plainStruct {inProgress : List String} {owner field type : String} {layout : Layout}
    (h : Returns (plainStruct table inProgress owner field type) layout) :
    ∃ schema, table.find? type = some schema ∧ layout.Lists table schema.fields := by
  induction inProgress, owner, field, type using plainStruct.induct table generalizing layout with
  | case1 inProgress owner field type hmem =>
    rw [plainStruct_of_mem hmem] at h
    exact absurd h not_returns_throw
  | case2 inProgress owner field type hmem hfind =>
    rw [plainStruct_of_unknown hmem hfind] at h
    exact absurd h not_returns_throw
  | case3 inProgress owner field type hmem schema hfind ih =>
    rw [plainStruct_of_find? hmem hfind] at h
    exact ⟨schema, hfind, lists_fields (fun name type inner => ih name type) h⟩

end Lists

end Compile

/-- Every layout inside a compiled packet lists its fields in the order of construction. -/
theorem PacketSchema.lists_of_compile {table : TypeTable} {schema : PacketSchema} {d : Descriptor}
    (h : schema.compile table = .ok d) : d.layout.Lists table schema.fields := by
  rw [Compile.compile_eq_outcome] at h
  obtain ⟨layout, hlayout, hd⟩ := (Compile.Returns.of_outcome h).bind
  cases Compile.Returns.pure hd
  exact Compile.lists_fields (fun name type inner => Compile.lists_plainStruct) hlayout

end PacketWire
