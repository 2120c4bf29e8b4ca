import PacketWire.Proofs.Layout.Accepted
import PacketWire.Proofs.Layout.Paths
import PacketWire.Proofs.Packet.RoundTrip
import PacketWire.Proofs.Wire.Leaves

/-!
# Leaves of a packet

The listing of a packet's leaves is computed apart from the writer, which walks the layout and the
record together. For a packet without a part that is counted they agree at every depth: the leaves
stand one behind the other behind the header, and each packet has its leaves' bytes where the
listing says.

* `PacketSchema.leaves_stand`: where the leaves of a packet are.
-/

namespace PacketWire

open LeafField

/-- A packet has the bytes of each leaf where the leaf is placed. -/
theorem Descriptor.slice?_of_encode {d : Descriptor} (h : d.Sound) (hfixed : d.layout.Fixed)
    {record : Record} {bytes : Bytes} (hencode : d.encode record = .ok bytes) {leaf : LeafField}
    {position : Nat} (hleaf : (leaf, position) ∈ placed d.layout.start d.layout.leafFields) :
    ∃ value encoded, leaf.value? record = some value ∧ leaf.codec.serial? value = some encoded ∧
      bytes.slice? position leaf.width = some encoded := by
  obtain ⟨hwire, -⟩ := (encode_eq_ok_iff h).mp hencode
  obtain ⟨body, hbody, rfl⟩ := wire?_eq_some_iff.mp hwire
  rw [h.start_eq, headerLength] at hleaf
  obtain ⟨encoded, hencoded, hslice⟩ := slice?_of_mem_placed
    (fun leaf hleaf _ => hfixed.length_bytes? (hfixed.mem_leafFields_iff.mp hleaf))
    (hfixed.serialLeaves record body hbody) d.key.bytes d.sequence?.toList hleaf
  obtain ⟨value, hvalue, hserial⟩ := Option.bind_eq_some_iff.mp hencoded
  exact ⟨value, encoded, hvalue, hserial, hslice⟩

namespace PacketSchema

variable {schema : PacketSchema} {table : TypeTable} {d : Descriptor}

/-- The leaves of a packet, no part of which is counted at any depth, are listed one behind the
other from the header to the end of the layout, each of them once, and under different paths when
all names are plain. Every packet that a record is encoded as has at the position of each leaf the
encoding of what the record holds for the leaf. -/
theorem leaves_stand (hcompile : schema.compile table = .ok d)
    (hstatic : ∀ field ∈ schema.fields, ¬table.FieldVaries field) :
    d.layout.leaves = (placed schema.headerLength d.layout.leafFields).map
        (fun leaf => ⟨leaf.1.path, toString leaf.2⟩) ∧
      (∀ leaf, leaf ∈ d.layout.leafFields ↔ d.layout.HasLeaf leaf) ∧
      d.layout.leafFields.Nodup ∧
      (d.layout.PlainNames → (d.layout.leaves.map (·.path)).Nodup) ∧
      schema.headerLength + widths d.layout.leafFields = d.layout.staticSize ∧
      ∀ record bytes, d.encode record = .ok bytes → ∀ leaf position,
        (leaf, position) ∈ placed schema.headerLength d.layout.leafFields →
          ∃ value encoded, leaf.value? record = some value ∧
            leaf.codec.serial? value = some encoded ∧
            bytes.slice? position leaf.width = some encoded := by
  have hcompiles := compile_ok hcompile
  have hdynamic : d.layout.isDynamic = false := by
    rw [← Bool.not_eq_true]
    intro hvaries
    obtain ⟨field, hfield, hcounted⟩ := (isDynamic_iff hcompile).mp hvaries
    exact hstatic field hfield hcounted
  have hfixed := hcompiles.layout.wellFormed.fixed hdynamic
  have hleaves : d.layout.leaves = (placed schema.headerLength d.layout.leafFields).map
      (fun leaf => ⟨leaf.1.path, toString leaf.2⟩) := by
    rw [Layout.leaves, hfixed.listsPlaced, Nat.zero_add, hcompiles.layout.start_eq]
    refine List.map_congr_left fun leaf _ => ?_
    rw [written, String.empty_append]
  refine ⟨hleaves, fun leaf => hfixed.mem_leafFields_iff, hfixed.nodup_leafFields,
    fun hnames => ?_, ?_, fun record bytes hencode leaf position hleaf => ?_⟩
  · have hpaths := hfixed.nodup_paths hnames
    rw [← map_fst_placed schema.headerLength d.layout.leafFields, List.map_map] at hpaths
    rwa [hleaves, List.map_map]
  · rw [← hcompiles.layout.start_eq, hfixed.widths_leafFields]
  · rw [← hcompiles.layout.start_eq] at hleaf
    exact Descriptor.slice?_of_encode hcompiles.sound hfixed hencode hleaf

/-- Rows of cells. -/
def boardTypes : TypeTable where
  structs :=
    [{ name := "Cell"
       fields :=
        [{ name := "free", kind := .scalar .bool },
          { name := "marks", kind := .array (.scalar .u8), length := some 2 }] },
      { name := "Row"
        fields :=
          [{ name := "cells", kind := .array (.struct "Cell"), length := some 2 },
            { name := "label", kind := .text, length := some 3 }] }]
  nodup := by decide

/-- Two rows behind the turn, which is declared last. -/
def board : PacketSchema where
  name := "Board"
  header := 0x2b
  subHeader := some 0x01
  hasSequence := true
  fields :=
    [{ name := "rows", kind := .array (.struct "Row"), length := some 2 },
      { name := "turn", kind := .scalar .u32, position := some 0 }]

def boardRecord : Record :=
  ⟨[("turn", .u32 7),
    ("rows", .array
      [.record ⟨[("label", .text "a"), ("cells", .array
          [.record ⟨[("free", .bool true), ("marks", .bytes [1, 2])]⟩,
            .record ⟨[("free", .bool false), ("marks", .bytes [3, 4])]⟩])]⟩,
        .record ⟨[("label", .text "bc"), ("cells", .array
          [.record ⟨[("free", .bool true), ("marks", .bytes [5, 6])]⟩,
            .record ⟨[("marks", .bytes [7, 8]), ("free", .bool false)]⟩])]⟩])]⟩

def boardBytes : Bytes :=
  [0x2b, 0x01, 7, 0, 0, 0, 1, 1, 2, 0, 3, 4, 97, 0, 0, 1, 5, 6, 0, 7, 8, 98, 99, 0, 0]

/-- The marks of the second cell of the second row stand at 19, as they are listed. -/
theorem leaves_stand_board : ∃ d, board.compile boardTypes = .ok d ∧
    d.encode boardRecord = .ok boardBytes ∧ (d.layout.leaves.map (·.path)).Nodup ∧
      ∃ (leaf : LeafField) (position : Nat) (value : Value) (encoded : Bytes),
        leaf.path = "rows[1].cells[1].marks" ∧ toString position = "19" ∧
          leaf.value? boardRecord = some value ∧ leaf.codec.serial? value = some encoded ∧
            boardBytes.slice? position leaf.width = some encoded := by
  have hrun : (board.compile boardTypes).toOption.bind (fun d =>
      (d.encode boardRecord).toOption.map fun bytes =>
        (bytes, d.isDynamic, decide (⟨"rows[1].cells[1].marks", "19"⟩ ∈ d.layout.leaves))) =
      some (boardBytes, false, true) := by
    decide +kernel
  obtain ⟨d, hcompile, hrun⟩ := Option.bind_eq_some_iff.mp hrun
  obtain ⟨bytes, hencode, hrun⟩ := Option.map_eq_some_iff.mp hrun
  simp only [Prod.mk.injEq, decide_eq_true_eq] at hrun
  obtain ⟨rfl, hdynamic, hlisted⟩ := hrun
  rw [toOption_eq_some_iff] at hcompile hencode
  have hstatic : ∀ field ∈ board.fields, ¬boardTypes.FieldVaries field := by
    intro field hfield hcounted
    rw [(isDynamic_iff hcompile).mpr ⟨field, hfield, hcounted⟩] at hdynamic
    cases hdynamic
  have hnames : d.layout.PlainNames :=
    (compile_ok hcompile).layout.follows.plainNames (by decide +kernel) (by decide +kernel)
  obtain ⟨hleaves, -, -, hpaths, -, hbytes⟩ := leaves_stand hcompile hstatic
  rw [hleaves] at hlisted
  obtain ⟨⟨leaf, position⟩, hleaf, hwritten⟩ := List.mem_map.mp hlisted
  rw [Leaf.mk.injEq] at hwritten
  obtain ⟨value, encoded, hvalue, hserial, hslice⟩ :=
    hbytes boardRecord boardBytes hencode leaf position hleaf
  exact ⟨d, hcompile, hencode, hpaths hnames, leaf, position, value, encoded, hwritten.1,
    hwritten.2, hvalue, hserial, hslice⟩

end PacketSchema

end PacketWire
