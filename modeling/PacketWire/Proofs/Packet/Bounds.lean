import PacketWire.Proofs.Packet.Cursor

/-!
# No access leaves a buffer

A compiled schema is read, measured and written without an access outside the buffer, whatever the
buffer holds and whatever the record is. Reading and measuring blame the bytes for every fault,
writing blames the record or the length of the buffer.

* `Layout.WellFormed.encodeInto_blamesInput`, `Descriptor.encodeInto_blamesInput`: what writing
  fails for.
* `PacketSchema.compile_stays`: so it is for every compiled schema, and for every struct inside it.
-/

namespace PacketWire

/-! ## Writing -/

/-- A computation on a buffer that no fault of the layout ends. -/
def Write.BlamesInput {α : Type} (w : Write α) (buf : Bytes) : Prop :=
  ∀ fault buf', w buf = .error fault buf' → ¬fault.OfLayout

namespace Write

variable {α β : Type} {buf : Bytes}

theorem blamesInput_lift {e : Except CodecError α} (he : PacketWire.BlamesInput e)
    {f : α → Write β} (hf : ∀ a, e = .ok a → BlamesInput (f a) buf) :
    BlamesInput (lift e >>= f) buf := by
  cases e with
  | ok a => exact hf a rfl
  | error fault =>
    rintro _ _ ⟨⟩
    exact he fault rfl

theorem BlamesInput.map {w : Write α} (h : BlamesInput w buf) (b : β) :
    BlamesInput (w >>= fun _ => pure b) buf := by
  intro fault buf' hrun
  rw [bind_apply] at hrun
  cases hw : w buf with
  | ok a after =>
    rw [hw] at hrun
    cases hrun
  | error fault after =>
    rw [hw] at hrun
    cases hrun
    exact h _ _ hw

/-- A buffer that is too short is refused. -/
theorem blamesInput_ensure {required : Nat} {w : Write α}
    (hw : required ≤ buf.length → BlamesInput w buf) : BlamesInput (do ensure required; w) buf := by
  intro fault buf' hrun
  rw [bind_apply, show ensure required buf = lift (Codec.ensure buf required) buf from rfl] at hrun
  by_cases hshort : buf.length < required
  · rw [Codec.ensure, if_pos hshort] at hrun
    cases hrun
    simp
  · rw [Codec.ensure, if_neg hshort] at hrun
    exact hw (Nat.not_lt.mp hshort) fault buf' hrun

/-- A buffer that holds a window is written. -/
theorem Fills.blamesInput {w : Write Unit} {position width : Nat} {out : Option Bytes}
    (h : Fills w position width out) (hlong : position + width ≤ buf.length) :
    BlamesInput w buf := by
  intro fault buf' hrun
  obtain ⟨src, -, hfills⟩ := h buf hlong
  rw [hrun] at hfills
  exact hfills.1.2

end Write

/-- Writing a record fails because of the record, or because the buffer is too short. -/
theorem Layout.WellFormed.encodeInto_blamesInput {layout : Layout} (h : layout.WellFormed)
    {record : Record} {position : Nat}
    (hlt : ∀ n, layout.encodedLength record = .ok n → position + n < Size.limit) (buf : Bytes) :
    (layout.encodeInto record position).BlamesInput buf := by
  unfold encodeInto
  refine Write.blamesInput_lift (h.blamesInput_plan record) fun p hp => ?_
  refine Write.BlamesInput.map ?_ p.length
  have hlt := hlt p.length (bind_eq_ok_iff.mpr ⟨p, hp, rfl⟩)
  have hstart := h.coherent.start_le_staticSize
  have hstatic := staticSize_le_of_plan hp
  by_cases hlong : position + p.length ≤ buf.length
  · exact (h.writes record p position hp hlt).blamesInput (by omega)
  · rw [write_eq]
    refine Write.blamesInput_ensure fun hensured => absurd hensured ?_
    unfold Size.addSat Size.largest
    omega

namespace Descriptor

variable {d : Descriptor}

theorem encodeInto_blamesInput (h : d.Sound) {record : Record} {position : Nat}
    (hlt : ∀ n, d.layout.encodedLength record = .ok n →
      position + (n + d.trailerLength) < Size.limit) (buf : Bytes) :
    (d.encodeInto record position).BlamesInput buf := by
  cases hplan : d.layout.plan record with
  | error fault =>
    rw [encodeInto, hplan]
    rintro _ _ ⟨⟩
    exact h.wellFormed.blamesInput_plan record fault hplan
  | ok p =>
    have hlt := hlt p.length (bind_eq_ok_iff.mpr ⟨p, hplan, rfl⟩)
    rw [encodeInto_eq hplan]
    refine Write.blamesInput_ensure fun hlong => ?_
    exact ((fills_write hplan h hlt).blamesInput hlong).map _

theorem frameLength_blamesBytes (h : d.Sound) {buf : Bytes} (hlt : buf.length < Size.largest) :
    BlamesBytes buf (d.frameLength buf) := by
  rw [frameLength]
  split
  · exact blamesBytes_ok _
  · split
    · exact blamesBytes_ok _
    · exact (h.wellFormed.measure_blamesBytes hlt 0).bind fun found _ => blamesBytes_ok _

end Descriptor

namespace PacketSchema

/-- Whatever a buffer holds, reading and measuring it with a compiled schema, or with the layout of
a struct inside it, fails for the bytes alone: they run out, or a size field is negative. Whatever
a record is, writing it never fails for an access outside the buffer. -/
theorem compile_stays {schema : PacketSchema} {table : TypeTable} {d : Descriptor}
    (hcompile : schema.compile table = .ok d) :
    (∀ buf : Bytes, buf.length < Size.largest →
      (∀ position, BlamesBytes buf (d.decode buf position)) ∧ BlamesBytes buf (d.frameLength buf) ∧
        ∀ layout position, d.layout.Inside layout →
          BlamesBytes buf (layout.decodeFrom buf position) ∧
            BlamesBytes buf (layout.measure buf position)) ∧
      ∀ record buf position,
        ((∀ n, d.layout.encodedLength record = .ok n →
            position + (n + d.trailerLength) < Size.limit) →
          (d.encodeInto record position).BlamesInput buf) ∧
        ∀ layout, d.layout.Inside layout →
          (∀ n, layout.encodedLength record = .ok n → position + n < Size.limit) →
            (layout.encodeInto record position).BlamesInput buf := by
  have hsound := (compile_ok hcompile).sound
  refine ⟨fun buf hlt => ⟨fun position => ?_, ?_, fun layout position hinside => ?_⟩,
    fun record buf position => ⟨fun hlt => ?_, fun layout hinside hlt => ?_⟩⟩
  · exact Descriptor.decode_blamesBytes hsound hlt
  · exact Descriptor.frameLength_blamesBytes hsound hlt
  · have hwell := hsound.wellFormed.inside hinside
    exact ⟨hwell.decodeFrom_blamesBytes hlt position, hwell.measure_blamesBytes hlt position⟩
  · exact Descriptor.encodeInto_blamesInput hsound hlt buf
  · exact (hsound.wellFormed.inside hinside).encodeInto_blamesInput hlt buf

/-- A packet that is cut short, and a record for a buffer that has room for it or not. -/
theorem inventory_stays : ∃ d, Inventory.schema.compile Inventory.types = .ok d ∧
    (∀ position, BlamesBytes (Inventory.packet.take 20)
      (d.decode (Inventory.packet.take 20) position)) ∧
      ∀ buf, (d.encodeInto Inventory.record 3).BlamesInput buf := by
  obtain ⟨d, hcompile, hencode⟩ := Inventory.encodes
  obtain ⟨hread, hwrite⟩ := compile_stays hcompile
  refine ⟨d, hcompile, (hread _ (by decide)).1, fun buf => (hwrite _ buf 3).1 ?_⟩
  intro n hn
  have hlength := Descriptor.encodedLength_of_encode (compile_ok hcompile).sound hencode
  obtain ⟨p, hp, htotal, -⟩ := Descriptor.encodedLength_eq_ok_iff.mp hlength
  obtain ⟨q, hq, hsame⟩ := bind_eq_ok_iff.mp hn
  rw [hp] at hq
  cases hq
  cases hsame
  rw [htotal]
  decide

end PacketSchema

end PacketWire
