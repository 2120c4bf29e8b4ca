import PacketWire.Proofs.Layout.Leaves

/-!
# Paths of leaves

The path of a leaf is written as one text. Where no name on the way contains one of the characters
that stand behind names, a dot or a bracket, the text can be taken apart again: a name reaches up
to the first of them, and an index up to the bracket that closes it.

* `append_inj_of_stop`: a text is taken apart at the first character that stops it.
* `LeafField.eq_of_path_eq`: a path tells the hops and the name of its leaf.
* `Layout.Fixed.nodup_paths`: the leaves of a layout have different paths.
-/

namespace PacketWire

/-- A name in which none of the characters occurs that stand behind a name in a path. -/
def PlainName (name : String) : Prop := '.' ∉ name.toList ∧ '[' ∉ name.toList

instance : DecidablePred PlainName := fun name =>
  inferInstanceAs (Decidable ('.' ∉ name.toList ∧ '[' ∉ name.toList))

/-- Two lists whose fronts go on up to the first element that stops them. -/
theorem append_inj_of_stop {α : Type} {p : α → Prop} {front other back rest : List α}
    (h : front ++ back = other ++ rest) (hfront : ∀ a ∈ front, p a) (hother : ∀ a ∈ other, p a)
    (hback : ∀ a ∈ back.head?, ¬p a) (hrest : ∀ a ∈ rest.head?, ¬p a) :
    front = other ∧ back = rest := by
  induction front generalizing other with
  | nil =>
    cases other with
    | nil => exact ⟨rfl, h⟩
    | cons b other =>
      rw [List.nil_append] at h
      exact absurd (hother b (by simp)) (hback b (by simp [h]))
  | cons a front ih =>
    cases other with
    | nil =>
      rw [List.nil_append] at h
      exact absurd (hfront a (by simp)) (hrest a (by simp [← h]))
    | cons b other =>
      rw [List.cons_append, List.cons_append, List.cons.injEq] at h
      rw [List.forall_mem_cons] at hfront hother
      obtain ⟨hrestFront, hrestBack⟩ := ih h.2 hfront.2 hother.2
      exact ⟨by rw [h.1, hrestFront], hrestBack⟩

theorem toDigits_injective {m n : Nat} (h : Nat.toDigits 10 m = Nat.toDigits 10 n) : m = n := by
  have hvalue := congrArg (fun digits => Nat.ofDigitChars 10 digits 0) h
  simpa only [Nat.ofDigitChars_ten_toDigits] using hvalue

namespace Hop

/-- What stands behind the name of a hop. -/
def mark (hop : Hop) : List Char :=
  match hop.index with
  | none => ['.']
  | some i => '[' :: (Nat.toDigits 10 i ++ [']', '.'])

theorem toList_render (hop : Hop) : hop.render.toList = hop.name.toList ++ hop.mark := by
  unfold render mark
  cases hop.index with
  | none => simp
  | some i => simp [Nat.toString_eq_repr, Nat.toList_repr]

theorem head?_mark (hop : Hop) (text : List Char) :
    ∀ c ∈ (hop.mark ++ text).head?, ¬(c ≠ '.' ∧ c ≠ '[') := by
  unfold mark
  cases hop.index <;> simp

theorem mark_ne_nil (hop : Hop) : hop.mark ≠ [] := by
  unfold mark
  split <;> simp

/-- The digits of an index end at the bracket behind them. -/
theorem eq_of_mark_append {hop other : Hop} {text rest : List Char}
    (h : hop.mark ++ text = other.mark ++ rest) : hop.index = other.index ∧ text = rest := by
  unfold mark at h
  cases hi : hop.index with
  | none =>
    cases hj : other.index with
    | none => simpa [hi, hj] using h
    | some j => simp [hi, hj] at h
  | some i =>
    cases hj : other.index with
    | none => simp [hi, hj] at h
    | some j =>
      simp only [hi, hj, List.cons_append, List.append_assoc, List.nil_append, List.cons.injEq,
        true_and] at h
      have hdigit : ∀ n, ∀ c ∈ Nat.toDigits 10 n, c.isDigit = true := fun n c =>
        Nat.isDigit_of_mem_toDigits (by decide) (by decide)
      obtain ⟨hdigits, htext⟩ := append_inj_of_stop h (hdigit i) (hdigit j) (by simp) (by simp)
      exact ⟨congrArg some (toDigits_injective hdigits), by simpa using htext⟩

end Hop

namespace LeafField

/-- What stands behind the outermost name in the path of a leaf. -/
def inward (leaf : LeafField) : List Char :=
  match leaf.hops with
  | [] => []
  | hop :: hops => hop.mark ++ (path ⟨hops, leaf.name, leaf.codec⟩).toList

/-- A leaf on the way to which no name contains a character that stands behind names. -/
structure Plain (leaf : LeafField) : Prop where
  name : PlainName leaf.name
  hops : ∀ hop ∈ leaf.hops, PlainName hop.name

theorem toList_path (leaf : LeafField) :
    leaf.path.toList = leaf.outermost.toList ++ leaf.inward := by
  obtain ⟨hops, name, codec⟩ := leaf
  cases hops with
  | nil => simp [path, outermost, inward, String.join]
  | cons hop hops =>
    have hpath := path_under hop ⟨hops, name, codec⟩
    rw [under] at hpath
    rw [hpath, String.toList_append, Hop.toList_render, List.append_assoc]
    rfl

theorem Plain.outermost {leaf : LeafField} (h : leaf.Plain) : PlainName leaf.outermost := by
  obtain ⟨hops, name, codec⟩ := leaf
  cases hops with
  | nil => exact h.name
  | cons hop hops => exact h.hops hop (by simp)

theorem Plain.within {hop : Hop} {hops : List Hop} {name : String} {codec : FieldCodec Layout}
    (h : Plain ⟨hop :: hops, name, codec⟩) : Plain ⟨hops, name, codec⟩ :=
  ⟨h.name, fun other hother => h.hops other (List.mem_cons_of_mem hop hother)⟩

theorem head?_inward (leaf : LeafField) : ∀ c ∈ leaf.inward.head?, ¬(c ≠ '.' ∧ c ≠ '[') := by
  unfold inward
  split
  · simp
  · exact Hop.head?_mark _ _

/-- The outermost name of a path reaches up to the first character that stands behind names. -/
theorem outermost_eq_of_path_eq {leaf other : LeafField} (hleaf : leaf.Plain) (hother : other.Plain)
    (h : leaf.path = other.path) :
    leaf.outermost = other.outermost ∧ leaf.inward = other.inward := by
  have hchars {name : String} (hname : PlainName name) : ∀ c ∈ name.toList, c ≠ '.' ∧ c ≠ '[' :=
    fun c hc => ⟨fun heq => hname.1 (heq ▸ hc), fun heq => hname.2 (heq ▸ hc)⟩
  rw [← String.toList_inj, toList_path, toList_path] at h
  obtain ⟨hname, hinward⟩ := append_inj_of_stop h (hchars hleaf.outermost)
    (hchars hother.outermost) leaf.head?_inward other.head?_inward
  exact ⟨String.toList_inj.mp hname, hinward⟩

/-- A path tells the way to its leaf. -/
theorem eq_of_path_eq {leaf other : LeafField} (hleaf : leaf.Plain) (hother : other.Plain)
    (h : leaf.path = other.path) : leaf.hops = other.hops ∧ leaf.name = other.name := by
  obtain ⟨hops, name, codec⟩ := leaf
  obtain ⟨others, label, found⟩ := other
  -- each hop takes a name and what stands behind it off the front of both paths
  induction hops generalizing others with
  | nil =>
    obtain ⟨hname, hinward⟩ := outermost_eq_of_path_eq hleaf hother h
    cases others with
    | nil => exact ⟨rfl, hname⟩
    | cons into others => exact absurd hinward.symm (by simp [inward, Hop.mark_ne_nil])
  | cons hop hops ih =>
    obtain ⟨hname, hinward⟩ := outermost_eq_of_path_eq hleaf hother h
    cases others with
    | nil => exact absurd hinward (by simp [inward, Hop.mark_ne_nil])
    | cons into others =>
      obtain ⟨hindex, htext⟩ := Hop.eq_of_mark_append hinward
      obtain ⟨hhops, hlabel⟩ := ih hleaf.within others hother.within (String.toList_inj.mp htext)
      have hhop : hop = into := Hop.ext hname hindex
      exact ⟨congrArg₂ List.cons hhop hhops, hlabel⟩

end LeafField

/-! ## Different paths -/

namespace Layout

/-- Every name of a field, at any depth, is plain. -/
def PlainNames (layout : Layout) : Prop :=
  ∀ inner, layout.Inside inner → ∀ field ∈ inner.fields, PlainName field.name

/-- Each field of a layout has a declaration that it follows. -/
theorem Follows.exists_declaration {table : TypeTable} {declared : List Field} {layout : Layout}
    (h : layout.Follows table declared) {field : FieldLayout Layout}
    (hfield : field ∈ layout.fields) :
    ∃ (ordered : List Field) (declaration : Field), declaration ∈ declared ∧
      declaration.name = field.name ∧ field.codec.Follows table ordered declaration := by
  cases h with
  | @intro owner _ ordered _ hordered hnames _ hcodecs =>
    obtain ⟨hplaces, rfl⟩ := Field.wireOrder_eq_ok_iff.mp hordered
    obtain ⟨i, hi⟩ := List.getElem?_of_mem hfield
    have hname := congrArg (·[i]?) hnames
    simp only [List.getElem?_map, hi, Option.map_some] at hname
    obtain ⟨declaration, hdeclaration, hname⟩ := Option.map_eq_some_iff.mp hname.symm
    exact ⟨_, declaration,
      (Field.finalOrder_perm hplaces).mem_iff.mp (List.mem_of_getElem? hdeclaration), hname,
      hcodecs i declaration field hdeclaration hi⟩

/-- What is inside a layout follows the declaration of a struct. -/
theorem Follows.of_nested {table : TypeTable} {declared : List Field} {layout inner : Layout}
    (h : layout.Follows table declared) (hinner : inner ∈ layout.nested) :
    ∃ schema ∈ table.structs, inner.Follows table schema.fields := by
  obtain ⟨field, hfield, hinner⟩ := List.mem_flatMap.mp hinner
  obtain ⟨ordered, declaration, -, -, hcodec⟩ := h.exists_declaration hfield
  generalize field.codec = codec at hcodec hinner
  cases hcodec with
  | scalar _ | enumeration _ _ | fixedText _ _ | countedText _ _ _ =>
    simp [FieldCodec.nested] at hinner
  | array _ _ helement | countedArray _ _ _ helement | list _ _ helement =>
    cases helement with
    | scalar type => simp [FieldCodec.nested, ElementCodec.nested] at hinner
    | struct hfind hfollows =>
      rw [FieldCodec.nested, ElementCodec.nested, List.mem_singleton] at hinner
      exact ⟨_, List.mem_of_find?_eq_some hfind, hinner ▸ hfollows⟩
  | struct _ hfind hfollows =>
    rw [FieldCodec.nested, List.mem_singleton] at hinner
    exact ⟨_, List.mem_of_find?_eq_some hfind, hinner ▸ hfollows⟩

/-- Names that are declared plain are plain in the layout. -/
theorem Follows.plainNames {table : TypeTable} {declared : List Field} {layout : Layout}
    (h : layout.Follows table declared) (hdeclared : ∀ field ∈ declared, PlainName field.name)
    (htypes : ∀ schema ∈ table.structs, ∀ field ∈ schema.fields, PlainName field.name) :
    layout.PlainNames := by
  have hlevel : ∀ inner, layout.Inside inner → ∃ fields : List Field,
      inner.Follows table fields ∧ ∀ field ∈ fields, PlainName field.name := by
    intro inner hinside
    induction hinside with
    | self => exact ⟨declared, h, hdeclared⟩
    | nested _ hinner ih =>
      obtain ⟨_, hfollows, -⟩ := ih
      obtain ⟨schema, hschema, hfollows⟩ := hfollows.of_nested hinner
      exact ⟨schema.fields, hfollows, htypes schema hschema⟩
  intro inner hinside field hfield
  obtain ⟨fields, hfollows, hplain⟩ := hlevel inner hinside
  obtain ⟨_, declaration, hdeclaration, hname, -⟩ := hfollows.exists_declaration hfield
  exact hname ▸ hplain declaration hdeclaration

theorem Inside.of_nested {outer layout inner : Layout} (hlayout : layout ∈ outer.nested)
    (h : layout.Inside inner) : outer.Inside inner := by
  induction h with
  | self => exact .nested .self hlayout
  | nested _ hinner ih => exact ih.nested hinner

theorem HasLeaf.plain {layout : Layout} (h : layout.PlainNames) {leaf : LeafField}
    (hleaf : layout.HasLeaf leaf) : leaf.Plain := by
  obtain ⟨hops, name, codec⟩ := leaf
  induction hops generalizing layout with
  | nil =>
    obtain ⟨field, hfield, -⟩ := hasLeaf_here.mp hleaf
    obtain ⟨hmem, hname⟩ := mem_of_field? hfield
    exact ⟨hname ▸ h layout .self field hmem, by simp⟩
  | cons hop hops ih =>
    obtain ⟨field, inner, hfield, henter, hinner⟩ := hasLeaf_within.mp hleaf
    obtain ⟨hmem, hname⟩ := mem_of_field? hfield
    have hnested := mem_nested hmem (FieldCodec.mem_nested_of_enter? henter)
    obtain ⟨hlast, hrest⟩ := ih (fun other hother => h other (.of_nested hnested hother)) hinner
    refine ⟨hlast, List.forall_mem_cons.mpr ⟨hname ▸ h layout .self field hmem, hrest⟩⟩

/-- The way to a leaf and its name tell how it is written. -/
theorem HasLeaf.eq_of_hops_eq {layout : Layout} {leaf other : LeafField}
    (hleaf : layout.HasLeaf leaf) (hother : layout.HasLeaf other) (hhops : leaf.hops = other.hops)
    (hname : leaf.name = other.name) : leaf = other := by
  obtain ⟨hops, name, codec⟩ := leaf
  obtain ⟨_, _, found⟩ := other
  cases hhops
  cases hname
  obtain ⟨inner, field, hfollow, hfield, rfl, -⟩ := hleaf
  obtain ⟨inner', field', hfollow', hfield', rfl, -⟩ := hother
  rw [hfollow] at hfollow'
  cases hfollow'
  rw [hfield] at hfield'
  cases hfield'
  rfl

/-- The leaves of a fixed layout have different paths when all names are plain. -/
theorem Fixed.nodup_paths {layout : Layout} (h : layout.Fixed) (hnames : layout.PlainNames) :
    (layout.leafFields.map (·.path)).Nodup := by
  refine h.nodup_leafFields.map_on fun leaf hleaf other hother hpath => ?_
  rw [h.mem_leafFields_iff] at hleaf hother
  obtain ⟨hhops, hname⟩ :=
    LeafField.eq_of_path_eq (hleaf.plain hnames) (hother.plain hnames) hpath
  exact hleaf.eq_of_hops_eq hother hhops hname

end Layout

end PacketWire
