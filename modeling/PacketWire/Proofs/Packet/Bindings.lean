import PacketWire.Proofs.Codec.Construction
import PacketWire.Proofs.Codec.Unbound
import PacketWire.Proofs.Packet.RoundTrip

/-!
# What bindings decide

The bindings of a packet and of its structs decide in which order decoded records list their names.
They decide nothing else: not whether the packet compiles, not its bytes, not what is read.

* `Descriptor.SameWire`: two packets that nothing but the order in decoded records tells apart.
* `Descriptor.sameWire_unbound`: such are a packet and the same without its bindings.
* `PacketSchema.bindings_decide_order`: so are the packets that schemas compile to that differ in
  bindings; and what is decoded lists its names in the order of construction.
-/

namespace PacketWire

/-- Two packets that are written, measured and read alike, up to the order of names in the records
that are read, at any depth. -/
structure Descriptor.SameWire (d d' : Descriptor) : Prop where
  encodedLength : ∀ record, d.encodedLength record = d'.encodedLength record
  encodeInto : ∀ record position, d.encodeInto record position = d'.encodeInto record position
  encode : ∀ record, d.encode record = d'.encode record
  frameLength : ∀ buf, d.frameLength buf = d'.frameLength buf
  decode : ∀ buf position,
    Outcomes SameReading (d.decode buf position) (d'.decode buf position)

namespace Descriptor

variable {d d' d'' : Descriptor}

theorem SameWire.symm (h : d.SameWire d') : d'.SameWire d where
  encodedLength record := (h.encodedLength record).symm
  encodeInto record position := (h.encodeInto record position).symm
  encode record := (h.encode record).symm
  frameLength buf := (h.frameLength buf).symm
  decode buf position := (h.decode buf position).symm fun _ _ => SameReading.symm

theorem SameWire.trans (h : d.SameWire d') (h' : d'.SameWire d'') : d.SameWire d'' where
  encodedLength record := (h.encodedLength record).trans (h'.encodedLength record)
  encodeInto record position := (h.encodeInto record position).trans (h'.encodeInto record position)
  encode record := (h.encode record).trans (h'.encode record)
  frameLength buf := (h.frameLength buf).trans (h'.frameLength buf)
  decode buf position :=
    (h.decode buf position).trans (h'.decode buf position) fun _ _ _ => SameReading.trans

/-- A packet is written, measured and read as it is without its bindings. -/
theorem sameWire_unbound (h : d.layout.WellFormed) : d.SameWire d.unbound := by
  have hwire := h.sameWire
  have hstatic : d.unbound.staticSize = d.staticSize := by
    rw [staticSize, staticSize, unbound, Layout.staticSize_unbound]
    rfl
  have hlength (record : Record) : d.encodedLength record = d.unbound.encodedLength record := by
    simp only [encodedLength, Layout.encodedLength, unbound, hwire.plan]
    rfl
  have hinto (record : Record) (position : Nat) :
      d.encodeInto record position = d.unbound.encodeInto record position := by
    simp only [encodeInto, unbound, hwire.plan, hwire.write]
    rfl
  refine ⟨hlength, hinto, fun record => ?_, fun buf => ?_, fun buf position => ?_⟩
  · rw [encode, encode, hlength]
    simp only [hinto]
  · rw [frameLength, frameLength, hstatic]
    simp only [isDynamic, unbound, Layout.isDynamic_unbound, hwire.measure]
    rfl
  · rw [decode, decode, hstatic]
    refine Outcomes.bind_same fun _ => (h.readsAlike buf position).bind ?_
    rintro ⟨record, length⟩ ⟨record', _⟩ ⟨hrecord, rfl⟩
    exact Outcomes.bind_same fun _ => .ok ⟨hrecord, rfl⟩

end Descriptor

/-! ## Schemas that differ in bindings -/

namespace PacketSchema

/-- Bindings decide the order in which decoded records list their names, and nothing else. A
record at any path of a decoded one lists the fields that are declared for the path, each once: those
bound to the constructor in declaration order, then the properties in declaration order. And a schema
that differs in bindings, in its own fields or in its structs, is refused with the same fault, or
compiles to a packet that is written, measured and read alike. -/
theorem bindings_decide_order (schema : PacketSchema) (table : TypeTable) :
    (∀ d, schema.compile table = .ok d → ∀ buf position record length,
      d.decode buf position = .ok (record, length) →
      ∀ path found, (Value.record record).At path found → ∃ fields,
        table.fieldsAt? schema.fields path = some fields ∧
        found.names = (Field.constructionOrder fields).map (·.name) ∧ found.names.Nodup) ∧
    ∀ (schema' : PacketSchema) (table' : TypeTable), schema.unbound = schema'.unbound →
      table.SameUnbound table' →
      Outcomes Descriptor.SameWire (schema.compile table) (schema'.compile table') := by
  constructor
  · intro d hcompile buf position record length hdecode path found hat
    obtain ⟨-, body, hbody, -⟩ := Descriptor.decode_eq_ok_iff.mp hdecode
    have hwell := (compile_ok hcompile).layout.wellFormed
    obtain ⟨inner, hinner, hbuilt⟩ := hwell.builds buf position record body hbody path found hat
    obtain ⟨fields, hfields, hnodup, hnames⟩ := lists_of_compile hcompile path inner hinner
    refine ⟨fields, hfields, hbuilt.trans hnames, ?_⟩
    rw [hbuilt, hnames]
    exact ((Field.constructionOrder_perm fields).map _).nodup_iff.mpr hnodup
  · intro schema' table' hschema htable
    refine Outcomes.of_map_eq (compile_congr_unbound htable hschema) fun d d' h h' hunbound => ?_
    have hd := Descriptor.sameWire_unbound (compile_ok h).layout.wellFormed
    have hd' := Descriptor.sameWire_unbound (compile_ok h').layout.wellFormed
    rw [← hunbound] at hd'
    exact hd.trans hd'.symm

end PacketSchema

/-! ## The inventory, bound otherwise -/

namespace Inventory

/-- The field, bound to the constructor if it tells whether an item is worn or how many there are. -/
def rebind (field : Field) : Field :=
  { field with
    binding := if field.name ∈ ["worn", "count"] then .recordParameter else .property }

def reboundTypes : TypeTable where
  structs := types.structs.map fun schema => { schema with fields := schema.fields.map rebind }
  nodup := by decide

def reboundSchema : PacketSchema := { schema with fields := schema.fields.map rebind }

end Inventory

namespace PacketSchema

/-- Bound otherwise the inventory has the same bytes. What is read of them differs in the order of
names, in the record and in the items. -/
theorem inventory_rebound :
    Inventory.schema.unbound = Inventory.reboundSchema.unbound ∧
      Inventory.types.SameUnbound Inventory.reboundTypes ∧
      ∃ d d' record record', Inventory.schema.compile Inventory.types = .ok d ∧
        Inventory.reboundSchema.compile Inventory.reboundTypes = .ok d' ∧
        d'.encode Inventory.record = .ok Inventory.packet ∧
        d.decode Inventory.packet 0 = .ok (record, 25) ∧
        d'.decode Inventory.packet 0 = .ok (record', 25) ∧
        Value.Rearranged (.record record) (.record record') ∧
        record.names = ["note", "items", "title", "flags", "count"] ∧
        record'.names = ["count", "items", "title", "flags", "note"] ∧
        (∀ item, (Value.record record).At ["items"] item → item.names = ["vnum", "worn"]) ∧
        ∀ item, (Value.record record').At ["items"] item → item.names = ["worn", "vnum"] := by
  have hunbound : Inventory.schema.unbound = Inventory.reboundSchema.unbound := by decide
  have hsame : Inventory.types.SameUnbound Inventory.reboundTypes :=
    TypeTable.sameUnbound_of_structs (by decide)
  have hrun : (Inventory.schema.compile Inventory.types).toOption.map (fun d =>
      ((d.encode Inventory.record).toOption,
        (d.decode Inventory.packet 0).toOption.map (·.2))) =
      some (some Inventory.packet, some 25) := by
    decide +kernel
  obtain ⟨d, hcompile, hfound⟩ := Option.map_eq_some_iff.mp hrun
  simp only [Prod.mk.injEq, Option.map_eq_some_iff, toOption_eq_some_iff] at hcompile hfound
  obtain ⟨hencode, ⟨record, _⟩, hdecode, rfl⟩ := hfound
  obtain ⟨hlists, hother⟩ := bindings_decide_order Inventory.schema Inventory.types
  obtain ⟨hlists', -⟩ := bindings_decide_order Inventory.reboundSchema Inventory.reboundTypes
  have hcompiled := hother _ _ hunbound hsame
  rw [hcompile] at hcompiled
  obtain ⟨d', hcompile', hwire⟩ := hcompiled.exists_ok
  have hread := hwire.decode Inventory.packet 0
  rw [hdecode] at hread
  obtain ⟨⟨record', _⟩, hdecode', hrearranged, rfl⟩ := hread.exists_ok
  have hat := hlists d hcompile _ _ record 25 hdecode
  have hat' := hlists' d' hcompile' _ _ record' 25 hdecode'
  -- the names at a path are those of the fields declared there
  have hnames {table : TypeTable} {declared : List Field} {path names expected : List String}
      (h : ∃ fields, table.fieldsAt? declared path = some fields ∧
        names = (Field.constructionOrder fields).map (·.name) ∧ names.Nodup)
      (hdeclared : (table.fieldsAt? declared path).map
        (fun fields => (Field.constructionOrder fields).map (·.name)) = some expected) :
      names = expected := by
    obtain ⟨fields, hfields, rfl, -⟩ := h
    rw [hfields] at hdeclared
    exact Option.some.inj hdeclared
  refine ⟨hunbound, hsame, d, d', record, record', hcompile, hcompile',
    hwire.encode Inventory.record ▸ hencode, hdecode, hdecode', hrearranged, ?_, ?_, ?_, ?_⟩
  · exact hnames (hat [] record (.here record)) (by decide)
  · exact hnames (hat' [] record' (.here record')) (by decide)
  · exact fun item hitem => hnames (hat _ item hitem) (by decide)
  · exact fun item hitem => hnames (hat' _ item hitem) (by decide)

end PacketSchema

end PacketWire
