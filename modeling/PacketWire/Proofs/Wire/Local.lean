import PacketWire.Proofs.Wire.Scan

/-!
# What a reader looks at

A left-to-right reader depends on the bytes it takes and on nothing behind them: with other bytes
behind, it reads the same and leaves those.

* `Scan.Local.bind`: readers one after another look no further than each of them does.
* `Descriptor.local_scan?`: so it is of a whole packet.
-/

namespace PacketWire

/-! ## Readers one after another -/

namespace Scan

variable {α β : Type}

/-- A reader that looks at nothing beyond what it takes. -/
def Local (read : Bytes → Option (α × Bytes)) : Prop :=
  ∀ bytes a rest, read bytes = some (a, rest) →
    ∃ front, bytes = front ++ rest ∧ ∀ other, read (front ++ other) = some (a, other)

theorem local_pure (a : α) : Local fun bytes => some (a, bytes) := by
  intro bytes b rest h
  cases h
  exact ⟨[], rfl, fun _ => rfl⟩

theorem local_none : Local fun _ => (none : Option (α × Bytes)) := by
  intro bytes a rest h
  cases h

theorem Local.bind {read : Bytes → Option (α × Bytes)} {next : α → Bytes → Option (β × Bytes)}
    (hread : Local read) (hnext : ∀ a, Local (next a)) :
    Local fun bytes => (read bytes).bind fun found => next found.1 found.2 := by
  intro bytes b rest h
  obtain ⟨⟨a, behind⟩, ha, hb⟩ := Option.bind_eq_some_iff.mp h
  obtain ⟨first, rfl, hfirst⟩ := hread bytes a behind ha
  obtain ⟨second, rfl, hsecond⟩ := hnext a behind b rest hb
  refine ⟨first ++ second, (List.append_assoc _ _ _).symm, ?_⟩
  intro other
  simp only [List.append_assoc, hfirst]
  exact hsecond other

theorem Local.map {read : Bytes → Option (α × Bytes)} (hread : Local read) (f : α → β) :
    Local fun bytes => (read bytes).map fun found => (f found.1, found.2) := by
  have hbind := hread.bind fun a => local_pure (f a)
  simpa only [Option.map_eq_bind, Function.comp_def] using hbind

theorem local_take (n : Nat) : Local (take n) := by
  intro bytes raw rest h
  unfold take at h
  split at h
  · next hle =>
    cases h
    refine ⟨bytes.take n, (List.take_append_drop n bytes).symm, fun other => ?_⟩
    exact take_append (by rw [List.length_take, Nat.min_eq_left hle]) other
  · cases h

theorem local_scalar (type : Primitive) : Local (scalar type) :=
  (local_take type.width).map (Scalar.ofBytes type)

theorem local_text (width limit : Nat) : Local (text width limit) :=
  (local_take width).map fun raw =>
    Value.text (Utf8.decodeLossy ((raw.take limit).takeWhile (· != 0)))

theorem local_times {read : Bytes → Option (α × Bytes)} (hread : Local read) (n : Nat) :
    Local (times read n) := by
  induction n with
  | zero => exact local_pure []
  | succ n ih => exact hread.bind fun a => ih.map (a :: ·)

end Scan

/-! ## Layouts -/

theorem ElementCodec.local_scan? {element : ElementCodec Layout}
    (hnested : ∀ inner ∈ element.nested, Scan.Local fun bytes => inner.scan? bytes) (count : Nat) :
    Scan.Local (element.scan? count) := by
  cases element with
  | scalar type =>
    by_cases hbyte : type = .u8
    · subst hbyte
      have htake := (Scan.local_take count).map Value.bytes
      intro bytes
      rw [ElementCodec.scan?]
      exact htake bytes
    · have htimes := (Scan.local_times (Scan.local_scalar type) count).map
        fun items => Value.array (items.map Value.scalar)
      intro bytes
      simp only [ElementCodec.scan?.eq_2 _ _ _ hbyte]
      exact htimes bytes
  | struct layout =>
    have hlayout := hnested layout (by simp [ElementCodec.nested])
    have htimes := (Scan.local_times hlayout count).map
      fun records => Value.array (records.map Value.record)
    intro bytes
    simp only [ElementCodec.scan?]
    exact htimes bytes

theorem FieldCodec.local_scan? {codec : FieldCodec Layout}
    (hnested : ∀ inner ∈ codec.nested, Scan.Local fun bytes => inner.scan? bytes)
    (counts : List Nat) : Scan.Local (codec.scan? counts) := by
  cases codec with
  | scalar type =>
    have hscalar := (Scan.local_scalar type).map Value.scalar
    intro bytes
    simp only [FieldCodec.scan?]
    exact hscalar bytes
  | text width =>
    cases width with
    | fixed capacity =>
      intro bytes
      simp only [FieldCodec.scan?]
      exact Scan.local_text capacity capacity bytes
    | counted source =>
      intro bytes
      simp only [FieldCodec.scan?]
      exact Scan.local_text _ _ bytes
  | array element length =>
    intro bytes
    simp only [FieldCodec.scan?]
    exact ElementCodec.local_scan? hnested length bytes
  | list element source =>
    intro bytes
    simp only [FieldCodec.scan?]
    exact ElementCodec.local_scan? hnested _ bytes
  | struct layout =>
    have hlayout := (hnested layout (by simp [FieldCodec.nested])).map Value.record
    intro bytes
    simp only [FieldCodec.scan?]
    exact hlayout bytes

theorem local_scanFields? {fields : List (FieldLayout Layout)}
    (hnested : ∀ field ∈ fields, ∀ inner ∈ field.codec.nested,
      Scan.Local fun bytes => inner.scan? bytes) (counts : List Nat) :
    Scan.Local (scanFields? fields counts) := by
  induction fields generalizing counts with
  | nil =>
    intro bytes
    simp only [scanFields?]
    exact Scan.local_pure [] bytes
  | cons field fields ih =>
    have hfield := FieldCodec.local_scan? (hnested field (by simp)) counts
    have hrest := fun counts => ih (fun other hother => hnested other (by simp [hother])) counts
    have hboth := hfield.bind fun value => show Scan.Local fun bytes =>
        (if field.isSizeField then value.count? else some 0).bind fun count =>
          (scanFields? fields (counts ++ [count]) bytes).map fun found =>
            (value :: found.1, found.2) by
      cases hcount : (if field.isSizeField then value.count? else some 0) with
      | none => exact Scan.local_none
      | some count => exact (hrest (counts ++ [count])).map (value :: ·)
    intro bytes
    simp only [scanFields?_cons]
    exact hboth bytes

theorem Layout.WellFormed.local_scan? {layout : Layout} (h : layout.WellFormed) :
    Scan.Local fun bytes => layout.scan? bytes := by
  induction h with
  | @intro layout coherent _ ih =>
    have hfields : Scan.Local (scanFields? layout.fields []) :=
      local_scanFields? (fun _ hfield inner hinner => ih inner (mem_nested hfield hinner)) []
    have hlayout := (Scan.local_take layout.start).bind fun _ => hfields.map
      (Record.arrange (layout.fields.map (·.name)) layout.buildOrder)
    intro bytes
    simp only [Layout.scan?_eq]
    exact hlayout bytes

/-- Reading a packet depends on the bytes it takes and on nothing behind them. -/
theorem Descriptor.local_scan? {d : Descriptor} (h : d.layout.WellFormed) : Scan.Local d.scan? :=
  h.local_scan?.bind fun record => (Scan.local_take d.trailerLength).map fun _ => record

end PacketWire
