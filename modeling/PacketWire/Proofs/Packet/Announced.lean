import Mathlib.Data.Nat.Find
import PacketWire.Proofs.Codec.Shortage
import PacketWire.Proofs.Packet.RoundTrip

/-!
# Announced lengths

A stream announces the length of its first packet long before the packet is there. What the
prefixes of the stream say agrees: first nothing is known, and from some prefix on the answer is the
same, be it a length or a fault. A packet that lies in the buffer as announced can be read, and one
that does not is short of bytes.

* `Foretells`: what the prefixes of a stream say of a length agrees.
* `PacketSchema.frameLength_foretells`: so do the lengths of packets and of the structs in them.
* `Descriptor.shortOnlyIf_decode`: an announced packet is read, unless the buffer ends before it.
* `PacketSchema.frameLength_agrees`: announcing a length agrees with reading on every buffer.
-/

namespace PacketWire

/-! ## Prefixes of a stream -/

/-- What the prefixes of a stream say of the length of something that begins at `base`. -/
structure Foretells (length : Bytes → Except CodecError (Option Nat)) (base : Nat)
    (stream : Bytes) : Prop where
  /-- A length that a prefix tells is the length. -/
  told : ∀ front n, front <+: stream → length front = .ok (some n) → length stream = .ok (some n)
  /-- A fault that a prefix shows is the fault. -/
  refused : ∀ front fault, front <+: stream → length front = .error fault →
    length stream = .error fault
  /-- What a prefix does not tell ends behind it. -/
  later : ∀ front n, front <+: stream → length front = .ok none → length stream = .ok (some n) →
    front.length < base + n
  /-- There is one prefix from which on the answer is given. -/
  turns : ∃ k, (∀ j < k, length (stream.take j) = .ok none) ∧
    ∀ j, k ≤ j → length (stream.take j) = length stream
  /-- The bytes up to the end tell where it is. -/
  enough : ∀ n, length stream = .ok (some n) → ∀ j, base + n ≤ j →
    length (stream.take j) = .ok (some n)

section

variable {length : Bytes → Except CodecError (Option Nat)} {base : Nat} {stream : Bytes}

/-- Answers that stay under more bytes, and are given before the end, agree on all prefixes. -/
theorem Foretells.of_append (hlt : stream.length < Size.largest)
    (hstays : ∀ front behind : Bytes, front.length < Size.largest → length front ≠ .ok none →
      length (front ++ behind) = length front)
    (hlater : ∀ (front behind : Bytes) (n : Nat), front.length < Size.largest →
      length front = .ok none → length (front ++ behind) = .ok (some n) →
      front.length < base + n) : Foretells length base stream := by
  have hfront : ∀ front, front <+: stream → front.length < Size.largest := by
    intro front hfront
    exact Nat.lt_of_le_of_lt hfront.length_le hlt
  have hsettled : ∀ front, front <+: stream → length front ≠ .ok none →
      length stream = length front := by
    intro front hpre hsome
    obtain ⟨behind, rfl⟩ := hpre
    exact hstays front behind (hfront front (List.prefix_append _ _)) hsome
  have hbehind : ∀ front n, front <+: stream → length front = .ok none →
      length stream = .ok (some n) → front.length < base + n := by
    intro front n hpre hnone hsome
    obtain ⟨behind, rfl⟩ := hpre
    exact hlater front behind n (hfront front (List.prefix_append _ _)) hnone hsome
  refine ⟨?_, ?_, hbehind, ?_, ?_⟩
  · intro front n hpre htold
    rw [hsettled front hpre (by simp [htold]), htold]
  · intro front fault hpre hrefused
    rw [hsettled front hpre (by simp [hrefused]), hrefused]
  · by_cases hnever : ∀ j, length (stream.take j) = .ok none
    · -- the whole stream is one of its prefixes, so it does not tell either
      have hwhole := hnever stream.length
      rw [List.take_length] at hwhole
      exact ⟨0, by simp, fun j _ => by rw [hnever j, hwhole]⟩
    · push Not at hnever
      classical
      refine ⟨Nat.find hnever, fun j hj => not_not.mp (Nat.find_min hnever hj), fun j hj => ?_⟩
      have hfirst := hsettled _ (List.take_prefix _ _) (Nat.find_spec hnever)
      obtain ⟨behind, hsplit⟩ := List.take_prefix_take_left hj (l := stream)
      have hsame := hstays (stream.take (Nat.find hnever)) behind
        (hfront _ (List.take_prefix _ _)) (Nat.find_spec hnever)
      rw [hsplit] at hsame
      rw [hsame, hfirst]
  · intro n hsome j hj
    by_cases hnone : length (stream.take j) = .ok none
    · -- a prefix that does not tell is shorter than what it holds, so it is not the whole
      have hshort := hbehind _ n (List.take_prefix j stream) hnone hsome
      rw [List.length_take] at hshort
      rw [List.take_of_length_le (by omega), hsome] at hnone
      cases hnone
    · rw [← hsettled _ (List.take_prefix j stream) hnone, hsome]

end

theorem Layout.settled_of_ne {α : Type} {buf : Bytes} {x : Except CodecError (Option α)}
    (hlt : buf.length < Size.largest) (h : x ≠ .ok none) : Layout.Settled buf x := by
  cases x with
  | error fault => exact hlt
  | ok found =>
    cases found with
    | none => exact absurd rfl h
    | some _ => exact trivial

/-- Measuring a record foretells where the record ends. -/
theorem Layout.WellFormed.foretells {layout : Layout} (h : layout.WellFormed) (base : Nat)
    {stream : Bytes} (hlt : stream.length < Size.largest) :
    Foretells (layout.measure · base) base stream := by
  apply Foretells.of_append hlt
  · intro front behind hfront hsome
    exact h.stable front behind base (settled_of_ne hfront hsome)
  · intro front behind n _ hnone hsome
    exact h.outlasts front behind base n hnone hsome

/-! ## Reading what was announced -/

namespace Descriptor

variable {d : Descriptor} {buf : Bytes}

theorem foretells (h : d.layout.WellFormed) {stream : Bytes}
    (hlt : stream.length < Size.largest) : Foretells d.frameLength 0 stream := by
  apply Foretells.of_append hlt
  · intro front behind hfront hsome
    exact frameLength_append h (Layout.settled_of_ne hfront hsome) behind
  · intro front behind n hfront hnone hsome
    rw [Nat.zero_add]
    exact frameLength_none_append h hfront hnone hsome

/-- A buffer that has what every such packet has announces what is measured in it. -/
theorem frameLength_eq_measure (h : d.layout.WellFormed) (hlt : buf.length < Size.limit)
    (hlong : d.staticSize ≤ buf.length) :
    d.frameLength buf = (d.layout.measure buf 0).map (·.map (Size.addSat · d.trailerLength)) := by
  rw [frameLength_eq, if_neg (Nat.not_lt.mpr hlong)]
  by_cases hdynamic : d.isDynamic = true
  · rw [if_pos hdynamic]
  · have hsize : 0 + d.layout.staticSize < Size.limit := by
      unfold staticSize at hlong
      omega
    rw [if_neg hdynamic, Layout.measure_of_static h.coherent (Bool.eq_false_iff.mpr hdynamic) hsize]
    show _ = Except.ok (some (Size.addSat d.layout.staticSize d.trailerLength))
    rw [Size.addSat_eq (show d.layout.staticSize + d.trailerLength ≤ buf.length from hlong) hlt]
    rfl

/-- An announced packet is read, unless the buffer ends before the packet does or does not tell
where that is. -/
theorem shortOnlyIf_decode (h : d.layout.WellFormed) (hlt : buf.length < Size.largest)
    {found : Option Nat} (hfound : d.frameLength buf = .ok found) :
    ShortOnlyIf buf (∀ n, found = some n → buf.length < n) (d.decode buf 0) := by
  have hlimit := Nat.lt_of_lt_pred hlt
  rw [decode]
  refine ((Codec.shortOnlyIf_ensure _).mono ?_).bind fun _ hensure => ?_
  · rintro hshort n rfl
    have := (frameLength_eq_some hfound).1
    omega
  have hlong := Codec.ensure_eq_ok_iff.mp hensure
  rw [Nat.zero_add] at hlong
  rw [frameLength_eq_measure h hlimit hlong] at hfound
  obtain ⟨inner, hmeasure, rfl⟩ : ∃ inner, d.layout.measure buf 0 = .ok inner ∧
      inner.map (Size.addSat · d.trailerLength) = found := by
    cases hmeasure : d.layout.measure buf 0 with
    | error fault =>
      rw [hmeasure] at hfound
      cases hfound
    | ok inner =>
      rw [hmeasure] at hfound
      exact ⟨inner, rfl, Except.ok.inj hfound⟩
  refine ((h.delivers buf 0 inner hlt hmeasure ?_).mono ?_).bind ?_
  · rintro length rfl
    obtain ⟨spans, -, hstop⟩ := Layout.measure_eq_some_iff.mp hmeasure
    rw [Nat.zero_add]
    exact (Codec.locate_eq_ok_iff.mp hstop).2
  · rintro hlack n hn
    obtain ⟨length, rfl, rfl⟩ := Option.map_eq_some_iff.mp hn
    have := hlack length rfl
    show buf.length < Size.addSat length d.trailerLength
    unfold Size.addSat
    omega
  · rintro ⟨record, length⟩ hread
    have hsame := h.measures buf 0 record length hread
    rw [hmeasure] at hsame
    cases hsame
    refine ((Codec.shortOnlyIf_ensure _).mono ?_).bind fun _ _ => shortOnlyIf_ok _
    rintro hshort n ⟨⟩
    show buf.length < Size.addSat length d.trailerLength
    unfold Size.addSat at hshort ⊢
    omega

end Descriptor

/-! ## Compiled schemas -/

namespace PacketSchema

variable {schema : PacketSchema} {table : TypeTable} {d : Descriptor}

/-- What the prefixes of a stream announce agrees: a length or a fault that a prefix shows is what
the whole stream shows, and a length that it does not show lies beyond it. So the prefixes up to
some point show nothing and all others the same, and no byte behind the packet is needed to know
where it ends. The same holds of the layouts of the packet and of the structs in it, wherever they
begin. A stream has as many bytes as a size can count. -/
theorem frameLength_foretells (hcompile : schema.compile table = .ok d) {stream : Bytes}
    (hlt : stream.length < Size.largest) :
    Foretells d.frameLength 0 stream ∧
      ∀ layout, d.layout.Inside layout → ∀ base,
        Foretells (layout.measure · base) base stream := by
  have hwell := (compile_ok hcompile).sound.wellFormed
  refine ⟨Descriptor.foretells hwell hlt, ?_⟩
  intro layout hinside base
  exact (hwell.inside hinside).foretells base hlt

/-- The last size field of the inventory is the length of its note, which ends behind 21 bytes. -/
theorem inventory_foretells : ∃ d, Inventory.schema.compile Inventory.types = .ok d ∧
    d.frameLength (Inventory.packet.take 20) = .ok none ∧
      d.frameLength (Inventory.packet.take 21) = .ok (some 25) ∧
      d.frameLength (Inventory.packet ++ [0x21, 0x07]) = .ok (some 25) ∧
      Foretells d.frameLength 0 (Inventory.packet ++ [0x21, 0x07]) := by
  have hrun : (Inventory.schema.compile Inventory.types).toOption.map (fun d =>
      ((d.frameLength (Inventory.packet.take 20)).toOption,
        (d.frameLength (Inventory.packet.take 21)).toOption)) =
      some (some none, some (some 25)) := by
    decide +kernel
  obtain ⟨d, hcompile, hpair⟩ := Option.map_eq_some_iff.mp hrun
  rw [toOption_eq_some_iff] at hcompile
  simp only [Prod.mk.injEq, toOption_eq_some_iff] at hpair
  obtain ⟨hearly, htold⟩ := hpair
  obtain ⟨hforetells, -⟩ := frameLength_foretells hcompile
    (show (Inventory.packet ++ [0x21, 0x07]).length < Size.largest by decide)
  have hfront : Inventory.packet.take 21 <+: Inventory.packet ++ [0x21, 0x07] :=
    (List.take_prefix 21 _).trans (List.prefix_append _ _)
  exact ⟨d, hcompile, hearly, htold, hforetells.told _ 25 hfront htold, hforetells⟩

/-- Announcing a length agrees with reading on every buffer that has as many bytes as a size can
count. A packet that is read has the length announced. One that lies in the buffer as announced is
read from its bytes alone, and takes them all. Where the announced length lies beyond the buffer, or
the buffer does not tell it, reading finds the buffer too short. Where announcing fails, reading
does. -/
theorem frameLength_agrees (hcompile : schema.compile table = .ok d) {buf : Bytes}
    (hlt : buf.length < Size.largest) :
    (∀ record n, d.decode buf 0 = .ok (record, n) → d.frameLength buf = .ok (some n)) ∧
      (∀ n, d.frameLength buf = .ok (some n) → n ≤ buf.length →
        ∃ record, d.decode (buf.take n) 0 = .ok (record, n)) ∧
      (∀ found, d.frameLength buf = .ok found → (∀ n, found = some n → buf.length < n) →
        ∃ required, buf.length < required ∧
          d.decode buf 0 = .error (.bufferTooShort required buf.length)) ∧
      ∀ fault, d.frameLength buf = .error fault → ∃ other, d.decode buf 0 = .error other := by
  have hwell := (compile_ok hcompile).sound.wellFormed
  have hagree : ∀ (bytes : Bytes) (record : Record) (n : Nat), bytes.length < Size.largest →
      d.decode bytes 0 = .ok (record, n) → d.frameLength bytes = .ok (some n) := by
    intro bytes record n hbytes hdecode
    exact Descriptor.frameLength_of_decode hwell (Nat.lt_of_lt_pred hbytes) hdecode
  refine ⟨fun record n => hagree buf record n hlt, ?_, ?_, ?_⟩
  · intro n hlength hle
    have hfront : (buf.take n).length = n := by
      rw [List.length_take, Nat.min_eq_left hle]
    have hlimit : (buf.take n).length < Size.largest := by omega
    -- the bytes of the packet announce it as the buffer does
    have hsame := (Descriptor.foretells hwell hlt).enough n hlength n (by omega)
    have hread := Descriptor.shortOnlyIf_decode hwell hlimit hsame
    cases hdecode : d.decode (buf.take n) 0 with
    | error fault =>
      have := (hread fault hdecode).1 n rfl
      omega
    | ok pair =>
      obtain ⟨record, m⟩ := pair
      have hm := hagree _ record m hlimit hdecode
      rw [hsame] at hm
      cases hm
      exact ⟨record, rfl⟩
  · intro found hfound hbeyond
    cases hdecode : d.decode buf 0 with
    | error fault =>
      obtain ⟨-, required, hshort, rfl⟩ :=
        Descriptor.shortOnlyIf_decode hwell hlt hfound fault hdecode
      exact ⟨required, hshort, rfl⟩
    | ok pair =>
      obtain ⟨record, n⟩ := pair
      rw [hagree buf record n hlt hdecode] at hfound
      cases hfound
      have := hbeyond n rfl
      have := Descriptor.consumed_le_of_decode hdecode
      omega
  · intro fault hfault
    cases hdecode : d.decode buf 0 with
    | error other => exact ⟨other, rfl⟩
    | ok pair =>
      rw [hagree buf pair.1 pair.2 hlt hdecode] at hfault
      cases hfault

/-- The inventory followed by another byte, without its sequence byte, cut within the length of its
note, and with a note of negative length. -/
theorem inventory_agrees : ∃ d, Inventory.schema.compile Inventory.types = .ok d ∧
    d.frameLength (Inventory.packet ++ [0x21]) = .ok (some 25) ∧
      (∃ record, d.decode ((Inventory.packet ++ [0x21]).take 25) 0 = .ok (record, 25)) ∧
      d.frameLength (Inventory.packet.take 24) = .ok (some 25) ∧
      (∃ required, 24 < required ∧
        d.decode (Inventory.packet.take 24) 0 = .error (.bufferTooShort required 24)) ∧
      d.frameLength (Inventory.packet.take 20) = .ok none ∧
      (∃ required, 20 < required ∧
        d.decode (Inventory.packet.take 20) 0 = .error (.bufferTooShort required 20)) ∧
      ∃ fault other, d.frameLength (Inventory.packet.set 20 0xff) = .error fault ∧
        d.decode (Inventory.packet.set 20 0xff) 0 = .error other := by
  have hrun : (Inventory.schema.compile Inventory.types).toOption.map (fun d =>
      [Inventory.packet ++ [0x21], Inventory.packet.take 24, Inventory.packet.take 20,
        Inventory.packet.set 20 0xff].map fun buf => (d.frameLength buf).toOption) =
      some [some (some 25), some (some 25), some none, none] := by
    decide +kernel
  obtain ⟨d, hcompile, hfound⟩ := Option.map_eq_some_iff.mp hrun
  rw [toOption_eq_some_iff] at hcompile
  simp only [List.map_cons, List.map_nil, List.cons.injEq, toOption_eq_some_iff, and_true] at hfound
  obtain ⟨hlonger, hcut, hearly, hnegative⟩ := hfound
  obtain ⟨-, hwhole, -, -⟩ := frameLength_agrees hcompile
    (show (Inventory.packet ++ [0x21]).length < Size.largest by decide)
  obtain ⟨-, -, hbeyond, -⟩ := frameLength_agrees hcompile
    (show (Inventory.packet.take 24).length < Size.largest by decide)
  obtain ⟨-, -, huntold, -⟩ := frameLength_agrees hcompile
    (show (Inventory.packet.take 20).length < Size.largest by decide)
  obtain ⟨-, -, -, hfails⟩ := frameLength_agrees hcompile
    (show (Inventory.packet.set 20 0xff).length < Size.largest by decide)
  refine ⟨d, hcompile, hlonger, hwhole 25 hlonger (by decide), hcut, hbeyond _ hcut (by decide),
    hearly, huntold _ hearly (by simp), ?_⟩
  cases hlength : d.frameLength (Inventory.packet.set 20 0xff) with
  | error fault =>
    obtain ⟨other, hother⟩ := hfails fault hlength
    exact ⟨fault, other, rfl, hother⟩
  | ok found =>
    rw [hlength] at hnegative
    cases hnegative

end PacketSchema

end PacketWire
