import PacketWire.Proofs.Codec.Write

/-!
# Packets on the wire

The packet that `encode` builds in a buffer, byte by byte at computed positions, is the
concatenation of its parts.

* `Descriptor.encodeInto_eq`: a packet fills the window of its length.
* `Descriptor.encode_eq_ok_iff`: a record is encoded exactly when it has a wire form that is not
  too long, and then as that.
-/

namespace PacketWire

/-- Writes a byte that is there or not. -/
def Write.putOption (position : Nat) : Option UInt8 → Write Unit
  | some byte => put position [byte]
  | none => pure ()

theorem Write.fills_putOption (position : Nat) (byte : Option UInt8) :
    Fills (putOption position byte) position byte.toList.length (some byte.toList) := by
  cases byte with
  | none => exact fills_pure position
  | some b => exact fills_put position [b]

namespace Descriptor

/-- A descriptor whose layout is well-formed and begins behind the header bytes. -/
structure Sound (d : Descriptor) : Prop where
  wellFormed : d.layout.WellFormed
  start_eq : d.layout.start = d.headerLength

theorem headerLength_eq (d : Descriptor) : d.headerLength = 1 + d.subHeader.toList.length := by
  rw [headerLength, Key.bytes, List.length_cons, Nat.add_comm]
  rfl

/-- The sequence byte. -/
def sequence? (d : Descriptor) : Option UInt8 := if d.hasSequence then some 0 else none

theorem trailerLength_eq (d : Descriptor) : d.trailerLength = d.sequence?.toList.length := by
  unfold trailerLength sequence?
  cases d.hasSequence <;> rfl

theorem wire?_eq (d : Descriptor) (record : Record) :
    d.wire? record = (d.layout.serial? record).map fun body =>
      [d.header] ++ (d.subHeader.toList ++ (body ++ d.sequence?.toList)) := by
  unfold wire? sequence?
  cases d.hasSequence <;> simp

/-- The length of a packet is that of the plan and the sequence byte. -/
theorem encodedLength_eq_ok_iff {d : Descriptor} {record : Record} {n : Nat} :
    d.encodedLength record = .ok n ↔
      ∃ p, d.layout.plan record = .ok p ∧ p.length + d.trailerLength = n ∧ n < Size.limit := by
  rw [encodedLength, Layout.encodedLength, bind_assoc, bind_eq_ok_iff]
  refine exists_congr fun p => and_congr_right fun _ => ?_
  rw [pure_bind]
  cases hadd : Size.add? p.length d.trailerLength with
  | none =>
    have := Size.add?_eq_none_iff.mp hadd
    simp only [reduceCtorEq, false_iff]
    omega
  | some total =>
    have := Size.add?_eq_some_iff.mp hadd
    simp only [pure_eq_ok_iff]
    omega

/-! ## Writing a packet -/

/-- Writes the parts of a packet one after another. -/
def write (d : Descriptor) (record : Record) (p : Plan) (position : Nat) : Write Unit := do
  Write.put position [d.header]
  Write.putOption (position + 1) d.subHeader
  d.layout.write record p position
  Write.putOption (position + (p.length + d.trailerLength) - 1) d.sequence?

section

variable {d : Descriptor} {record : Record} {p : Plan} (hplan : d.layout.plan record = .ok p)
include hplan

theorem encodeInto_eq (position : Nat) :
    d.encodeInto record position = (do
      Write.ensure (position + (p.length + d.trailerLength))
      d.write record p position
      return p.length + d.trailerLength) := by
  obtain ⟨name, header, subHeader, direction, hasSequence, isFamily, layout⟩ := d
  rw [encodeInto, hplan]
  cases subHeader <;> cases hasSequence <;>
    simp [write, Write.lift, Write.putOption, sequence?, trailerLength]

theorem fills_write (h : d.Sound) {position : Nat}
    (hlt : position + (p.length + d.trailerLength) < Size.limit) :
    Write.Fills (d.write record p position) position (p.length + d.trailerLength)
      (d.wire? record) := by
  have hstart := h.start_eq
  rw [headerLength_eq] at hstart
  have hle : d.layout.start ≤ p.length := by
    have := d.layout.stop.constant_le_total p.spans
    have := h.wellFormed.coherent.start_le_staticSize
    have := (Layout.plan_eq_ok hplan).2.2.1
    rw [Layout.staticSize] at *
    omega
  have hheader := Write.fills_put position [d.header]
  have hsub := Write.fills_putOption (position + 1) d.subHeader
  have hbody := h.wellFormed.writes record p position hplan (by omega)
  rw [show position + d.layout.start = position + 1 + d.subHeader.toList.length by omega] at hbody
  have hsequence := Write.fills_putOption (position + p.length) d.sequence?
  rw [show position + p.length =
    position + 1 + d.subHeader.toList.length + (p.length - d.layout.start) by omega,
    ← trailerLength_eq] at hsequence
  have hseq := hheader.seq (hsub.seq (hbody.seq hsequence))
  have hlast : Write.putOption (position + (p.length + d.trailerLength) - 1) d.sequence? =
      Write.putOption (position + 1 + d.subHeader.toList.length + (p.length - d.layout.start))
        d.sequence? := by
    unfold sequence? trailerLength
    cases d.hasSequence with
    | false => rfl
    | true =>
      simp only [if_true]
      congr 1
      omega
  have hwidth : [d.header].length + (d.subHeader.toList.length +
      (p.length - d.layout.start + d.trailerLength)) = p.length + d.trailerLength := by
    rw [List.length_singleton]
    omega
  rw [hwidth] at hseq
  rw [write, hlast, wire?_eq]
  cases hserial : d.layout.serial? record with
  | none => simpa [hserial] using hseq
  | some body => simpa [hserial] using hseq

omit hplan in
theorem encode_of_encodeInto {n : Nat} (hlength : d.encodedLength record = .ok n) {w : Write Unit}
    (hw : d.encodeInto record 0 = (w >>= fun _ => pure n)) :
    d.encode record = match w (List.replicate n 0) with
      | .ok _ buf => .ok buf
      | .error fault _ => .error fault := by
  rw [encode, hlength, hw]
  simp only [bind, Except.bind, EStateM.run, EStateM.bind]
  cases w (List.replicate n 0) <;> rfl

/-- What encoding a record with a plan gives: its wire form, or a fault. -/
theorem encode_of_plan (h : d.Sound) (hlt : p.length + d.trailerLength < Size.limit) :
    match d.wire? record with
    | some bytes => bytes.length = p.length + d.trailerLength ∧ d.encode record = .ok bytes
    | none => ∃ fault, d.encode record = .error fault := by
  have hlength := encodedLength_eq_ok_iff.mpr ⟨p, hplan, rfl, hlt⟩
  have hlong : 0 + (p.length + d.trailerLength) ≤
      (List.replicate (p.length + d.trailerLength) (0 : UInt8)).length := by
    simp
  obtain ⟨src, hsrc, hrun⟩ := Layout.fills_ensure (fills_write hplan h (by omega))
    (Nat.le_refl _) _ hlong
  have hall : Bytes.overwrite (List.replicate (p.length + d.trailerLength) 0) 0 src = src := by
    simp [Bytes.overwrite, hsrc]
  rw [hall] at hrun
  rw [encode_of_encodeInto hlength (by rw [encodeInto_eq hplan, bind_assoc])]
  generalize (Write.ensure (0 + (p.length + d.trailerLength)) >>= fun _ => d.write record p 0)
    (List.replicate (p.length + d.trailerLength) 0) = result at hrun ⊢
  cases result with
  | ok _ buf =>
    obtain ⟨hout, rfl⟩ := hrun
    rw [hout]
    exact ⟨hsrc, rfl⟩
  | error fault buf =>
    rw [hrun.1.1]
    exact ⟨fault, rfl⟩

end

/-- A record is encoded exactly when it has a wire form that is not too long, and then as that. -/
theorem encode_eq_ok_iff {d : Descriptor} (h : d.Sound) {record : Record} {bytes : Bytes} :
    d.encode record = .ok bytes ↔ d.wire? record = some bytes ∧ bytes.length < Size.limit := by
  constructor
  · intro hencode
    obtain ⟨n, hn, -⟩ := bind_eq_ok_iff.mp hencode
    obtain ⟨p, hplan, rfl, hlt⟩ := encodedLength_eq_ok_iff.mp hn
    have hresult := encode_of_plan hplan h hlt
    cases hwire : d.wire? record with
    | none =>
      rw [hwire] at hresult
      obtain ⟨fault, hfault⟩ := hresult
      rw [hencode] at hfault
      cases hfault
    | some found =>
      rw [hwire] at hresult
      obtain ⟨hlength, hfound⟩ := hresult
      rw [hencode] at hfound
      cases hfound
      exact ⟨rfl, by omega⟩
  · rintro ⟨hwire, hlt⟩
    have hbody := hwire
    rw [wire?_eq] at hbody
    obtain ⟨body, hserial, rfl⟩ := Option.map_eq_some_iff.mp hbody
    have hstart := h.start_eq
    rw [headerLength_eq] at hstart
    simp only [List.length_append, List.length_singleton, ← trailerLength_eq] at hlt
    obtain ⟨p, hplan⟩ := h.wellFormed.plans record body hserial (by omega)
    have hlength := h.wellFormed.planSized record body p hserial hplan
    have hresult := encode_of_plan hplan h (by omega)
    rw [hwire] at hresult
    exact hresult.2

/-- The length of a record that is encoded is known beforehand. -/
theorem encodedLength_of_encode {d : Descriptor} (h : d.Sound) {record : Record} {bytes : Bytes}
    (hencode : d.encode record = .ok bytes) : d.encodedLength record = .ok bytes.length := by
  obtain ⟨hwire, -⟩ := (encode_eq_ok_iff h).mp hencode
  obtain ⟨n, hn, -⟩ := bind_eq_ok_iff.mp hencode
  obtain ⟨p, hplan, rfl, hlt⟩ := encodedLength_eq_ok_iff.mp hn
  have hresult := encode_of_plan hplan h hlt
  rw [hwire] at hresult
  rw [hn, hresult.1]

end Descriptor

end PacketWire
