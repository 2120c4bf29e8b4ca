import PacketWire.Proofs.Packet.RoundTrip
import PacketWire.Proofs.Schema.Order
import PacketWire.Registry

/-!
# What a registry holds

Under every key of a registry stands a packet of that key, compiled from a schema, or under a header
alone the entry of the family of that header.

* `Registry.build_sound`: so it is in every registry that is built.
* `Registry.encodeRecord_eq_ok_iff`: a record is encoded by the entry of its key.
* `Registry.registerAll_builtIn`: a registry is built on the two packets that are always registered,
  which compile to known descriptors.
* `Registry.build_greets`: handshakes can be sent by every registry that is built.
* `Registry.build_announces`: so can phase changes.
-/

namespace PacketWire

/-- What may be registered under a key. -/
def Descriptor.Listed (d : Descriptor) (key : Key) : Prop :=
  d.isFamily = false ∧ d.key = key ∧ d.Sound ∨
    key.subHeader = none ∧ ∃ direction, d = .family key.header direction

/-- A table in which every key has an entry of its own. -/
def PacketTable.Sound (table : PacketTable) : Prop :=
  ∀ key d, table.get? key = some d → d.Listed key

/-- A registry in which every key has an entry of its own. -/
structure Registry.Sound (registry : Registry) : Prop where
  incoming : registry.incoming.Sound
  outgoing : registry.outgoing.Sound

/-- A registry that a program can have: the empty one, or one that is built. -/
def Registry.Made (registry : Registry) : Prop :=
  registry = {} ∨ ∃ table schemas, Registry.build table schemas = .ok registry

theorem Descriptor.Compiles.listed {table : TypeTable} {schema : PacketSchema} {d : Descriptor}
    (h : d.Compiles table schema) : d.Listed d.key := by
  refine .inl ⟨?_, rfl, h.sound⟩
  rw [h.eq_ofSchema]
  rfl

/-! ## Registering -/

namespace PacketTable

/-- A new entry is found under its key, unless there was one before. -/
theorem get?_insertNew (table : PacketTable) (key other : Key) (d : Descriptor) :
    (table.insertNew key d).get? other =
      (table.get? other).or (if other = key then some d else none) := by
  unfold insertNew
  cases hkey : table.get? key with
  | some first =>
    by_cases h : other = key
    · rw [h, hkey]
      rfl
    · simp [h]
  | none =>
    have hlookup : ([(key, d)] : List (Key × Descriptor)).lookup other =
        if other = key then some d else none := by
      by_cases h : other = key
      · simp [h]
      · have hbeq : (other == key) = false := by simpa using h
        simp [List.lookup_cons, hbeq, h]
    rw [← hlookup]
    exact List.lookup_append

theorem get?_insertNew_of_some {table : PacketTable} {other : Key} {d : Descriptor}
    (h : table.get? other = some d) (key : Key) (e : Descriptor) :
    (table.insertNew key e).get? other = some d := by
  rw [get?_insertNew, h]
  rfl

theorem insertNew_sound {table : PacketTable} (h : table.Sound) {key : Key} {d : Descriptor}
    (hd : d.Listed key) : (table.insertNew key d).Sound := by
  intro other found hfound
  rw [get?_insertNew, Option.or_eq_some_iff] at hfound
  rcases hfound with hold | ⟨-, hnew⟩
  · exact h other found hold
  · split at hnew
    · next heq =>
      cases hnew
      exact heq ▸ hd
    · cases hnew

theorem get?_register_of_some {table : PacketTable} {other : Key} {d : Descriptor}
    (h : table.get? other = some d) (direction : Direction) (e : Descriptor) :
    (table.register direction e).get? other = some d := by
  unfold register
  refine get?_insertNew_of_some ?_ e.key e
  split
  · exact get?_insertNew_of_some h _ _
  · exact h

theorem register_sound {table : PacketTable} (h : table.Sound) {d : Descriptor}
    (hd : d.Listed d.key) (direction : Direction) : (table.register direction d).Sound := by
  unfold register
  refine insertNew_sound ?_ hd
  split
  · exact insertNew_sound h (.inr ⟨rfl, direction, rfl⟩)
  · exact h

end PacketTable

namespace Registry

theorem sound_empty : Sound {} where
  incoming := by simp [PacketTable.Sound, PacketTable.get?]
  outgoing := by simp [PacketTable.Sound, PacketTable.get?]

theorem register_sound {registry : Registry} (h : registry.Sound) {d : Descriptor}
    (hd : d.Listed d.key) : (registry.register d).Sound where
  incoming := by
    unfold register
    dsimp only
    split
    · exact PacketTable.register_sound h.incoming hd .incoming
    · exact h.incoming
  outgoing := by
    unfold register
    dsimp only
    split
    · exact PacketTable.register_sound h.outgoing hd .outgoing
    · exact h.outgoing

/-- What registering a compiled packet keeps, registering all of them keeps. -/
theorem yields_registerAll {table : TypeTable} (P : Registry → Prop)
    (hregister : ∀ registry schema d, d.Compiles table schema → P registry →
      P (registry.register d))
    {registry : Registry} (h : P registry) (schemas : List PacketSchema) :
    Compile.Yields table (registerAll table registry schemas) P := by
  induction schemas generalizing registry with
  | nil => exact Compile.Yields.pure h
  | cons schema schemas ih =>
    exact (Compile.yields_descriptor table schema).bind fun d hd =>
      ih (hregister registry schema d hd h)

theorem of_build {table : TypeTable} {schemas : List PacketSchema} {P : Registry → Prop}
    (hyields : Compile.Yields table (registerAll table {} (builtIn ++ schemas)) P)
    {registry : Registry} (h : build table schemas = .ok registry) : P registry := by
  have hrun := hyields [] (Compile.remembers_nil table)
  unfold build EStateM.run at h
  cases hresult : registerAll table {} (builtIn ++ schemas) [] with
  | error fault cache =>
    rw [hresult] at h
    cases h
  | ok found cache =>
    rw [hresult] at h hrun
    cases h
    exact hrun.1

/-- Every registry that is built has an entry of its own under each key. -/
theorem build_sound {table : TypeTable} {schemas : List PacketSchema} {registry : Registry}
    (h : build table schemas = .ok registry) : registry.Sound := by
  have hyields : Compile.Yields table (registerAll table {} (builtIn ++ schemas)) Sound :=
    yields_registerAll Sound (fun _ _ _ hd hsound => register_sound hsound hd.listed) sound_empty _
  exact of_build hyields h

theorem Made.sound {registry : Registry} (h : registry.Made) : registry.Sound := by
  rcases h with rfl | ⟨table, schemas, hbuild⟩
  · exact sound_empty
  · exact build_sound hbuild

theorem Sound.get? {registry : Registry} (h : registry.Sound) {direction : Direction} {key : Key}
    {d : Descriptor} (hd : registry.get? direction key = some d) : d.Listed key := by
  cases direction with
  | incoming => exact h.incoming key d hd
  | outgoing => exact h.outgoing key d hd
  | both => exact h.incoming key d hd

theorem encodeRecord_eq_ok_iff {registry : Registry} {direction : Direction} {key : Key}
    {record : Record} {bytes : Bytes} :
    registry.encodeRecord direction key record = .ok bytes ↔
      ∃ d, registry.get? direction key = some d ∧ d.encode record = .ok bytes := by
  unfold encodeRecord require
  cases registry.get? direction key with
  | none => simp [bind, Except.bind]
  | some d =>
    simp only [bind, Except.bind, Option.some.injEq, exists_eq_left']
    cases d.encode record <;> simp [ProtocolError.ofCodec]

end Registry

/-! ## The handshake and the phase change -/

/-- The packet of a schema whose fields are on the wire as they are declared, from their codecs. -/
def Descriptor.ofCodecs (schema : PacketSchema) (codecs : List (FieldCodec Layout)) : Descriptor :=
  .ofSchema schema
    (Compile.assemble schema.name schema.fields schema.fields schema.headerLength codecs)

/-- The packet of a handshake: its header and three numbers. -/
def Handshake.bytes (h : Handshake) : Bytes :=
  key.header :: (Bytes.littleEndian 4 h.nonce.toNat ++ Bytes.littleEndian 4 h.time.toNat ++
    Bytes.littleEndian 4 h.delta.toNat)

/-- The compiled handshake. Its three words are read in the order in which they are declared. -/
def Handshake.descriptor : Descriptor :=
  let d := Descriptor.ofCodecs schema (List.replicate 3 (.scalar .u32))
  { d with layout := { d.layout with buildOrder := [0, 1, 2] } }

theorem Handshake.encode_descriptor (h : Handshake) :
    descriptor.encode h.toRecord = .ok h.bytes := rfl

/-- The packet of a phase change: its header and the number of the phase. -/
def PhaseChange.bytes (p : PhaseChange) : Bytes := [key.header, p.code]

/-- The compiled phase change. -/
def PhaseChange.descriptor : Descriptor := .ofCodecs schema [.scalar .u8]

theorem PhaseChange.encode_descriptor (p : PhaseChange) :
    descriptor.encode p.toRecord = .ok p.bytes := by
  have hbyte : UInt8.ofNat p.code.toNat = p.code := UInt8.ofNat_toNat
  exact congrArg (fun b => Except.ok [key.header, b]) hbyte

namespace Compile

variable {table : TypeTable} {cache later : LayoutCache}

/-- A packet whose fields ask for no place has them as they are declared. -/
theorem descriptor_of_unplaced {schema : PacketSchema} {codecs : List (FieldCodec Layout)}
    (hplaces : ∀ field ∈ schema.fields, field.position = none)
    (hnames : repeatedName? [] schema.fields = none)
    (hcodecs : fieldCodecs (struct table [] schema.name) schema.name schema.fields 0 schema.fields
      cache = .ok codecs later) :
    descriptor table schema cache = .ok (.ofCodecs schema codecs) later := by
  have horder (owner : String) : Field.wireOrder owner schema.fields = .ok schema.fields :=
    Field.wireOrder_eq_ok_iff.mpr (Field.finalOrder_of_unplaced hplaces)
  simp only [descriptor, packet, fields, horder, hnames, lift, pure_bind, bind_assoc]
  change EStateM.bind (fieldCodecs _ _ _ _ _) _ cache = _
  rw [EStateM.bind, hcodecs]
  rfl

theorem buildOrder_handshake :
    (Descriptor.ofCodecs Handshake.schema (List.replicate 3 (.scalar .u32))).layout.buildOrder =
      [0, 1, 2] := by
  show buildOrder (slots _ _ _ _) = _
  unfold buildOrder
  dsimp only
  rw [List.mergeSort_of_pairwise (by decide)]
  rfl

/-- The handshake compiles whatever types are declared. -/
theorem descriptor_handshake (table : TypeTable) (cache : LayoutCache) :
    descriptor table Handshake.schema cache = .ok Handshake.descriptor cache := by
  rw [Handshake.descriptor, ← buildOrder_handshake]
  exact descriptor_of_unplaced (by decide) (by decide) rfl

/-- So does the phase change. -/
theorem descriptor_phaseChange (table : TypeTable) (cache : LayoutCache) :
    descriptor table PhaseChange.schema cache = .ok PhaseChange.descriptor cache :=
  descriptor_of_unplaced (by decide) (by decide) rfl

end Compile

namespace Registry

/-- What is always registered. -/
def base : Registry := (register {} Handshake.descriptor).register PhaseChange.descriptor

theorem registerAll_cons_of_ok {table : TypeTable} {registry : Registry} {schema : PacketSchema}
    {schemas : List PacketSchema} {cache later : LayoutCache} {d : Descriptor}
    (h : Compile.descriptor table schema cache = .ok d later) :
    registerAll table registry (schema :: schemas) cache =
      registerAll table (registry.register d) schemas later := by
  change EStateM.bind (Compile.descriptor table schema)
    (fun d => registerAll table (registry.register d) schemas) cache = _
  rw [EStateM.bind, h]

theorem registerAll_builtIn (table : TypeTable) (schemas : List PacketSchema) :
    registerAll table {} (builtIn ++ schemas) = registerAll table base schemas := by
  funext cache
  show registerAll table {} (Handshake.schema :: PhaseChange.schema :: schemas) cache = _
  rw [registerAll_cons_of_ok (Compile.descriptor_handshake table cache),
    registerAll_cons_of_ok (Compile.descriptor_phaseChange table cache)]
  rfl

theorem build_nil (table : TypeTable) : build table [] = .ok base := by
  unfold build
  rw [registerAll_builtIn]
  rfl

theorem build_singleton {table : TypeTable} {schema : PacketSchema} {cache : LayoutCache}
    {d : Descriptor} (h : Compile.descriptor table schema [] = .ok d cache) :
    build table [schema] = .ok (base.register d) := by
  unfold build EStateM.run
  rw [registerAll_builtIn, registerAll_cons_of_ok h]
  rfl

/-- What is found under a key, no later packet takes away. -/
theorem get?_outgoing_register {registry : Registry} {key : Key} {d : Descriptor}
    (h : registry.get? .outgoing key = some d) (e : Descriptor) :
    (registry.register e).get? .outgoing key = some d := by
  unfold register get? table
  dsimp only
  split
  · exact PacketTable.get?_register_of_some h .outgoing e
  · exact h

theorem get?_outgoing_build {table : TypeTable} {schemas : List PacketSchema} {registry : Registry}
    (h : build table schemas = .ok registry) {key : Key} {d : Descriptor}
    (hbase : base.get? .outgoing key = some d) : registry.get? .outgoing key = some d := by
  have hyields : Compile.Yields table (registerAll table {} (builtIn ++ schemas))
      (fun registry => registry.get? .outgoing key = some d) := by
    rw [registerAll_builtIn]
    exact yields_registerAll (fun registry => registry.get? .outgoing key = some d)
      (fun _ _ e _ hfound => get?_outgoing_register hfound e) hbase schemas
  exact of_build hyields h

/-- A registry in which handshakes can be sent. -/
def Greets (registry : Registry) : Prop :=
  registry.get? .outgoing Handshake.key = some Handshake.descriptor

/-- In every registry that is built the handshake comes first, so that nothing takes its key. -/
theorem build_greets {table : TypeTable} {schemas : List PacketSchema} {registry : Registry}
    (h : build table schemas = .ok registry) : registry.Greets :=
  get?_outgoing_build h rfl

theorem Greets.encode {registry : Registry} (h : registry.Greets) (opening : Handshake) :
    registry.encode .outgoing opening = .ok opening.bytes :=
  encodeRecord_eq_ok_iff.mpr ⟨_, h, opening.encode_descriptor⟩

/-- A registry in which phase changes can be sent. -/
def Announces (registry : Registry) : Prop :=
  registry.get? .outgoing PhaseChange.key = some PhaseChange.descriptor

/-- In every registry that is built the phase change comes second, under a key that is free. -/
theorem build_announces {table : TypeTable} {schemas : List PacketSchema} {registry : Registry}
    (h : build table schemas = .ok registry) : registry.Announces :=
  get?_outgoing_build h rfl

theorem Announces.encode {registry : Registry} (h : registry.Announces) (change : PhaseChange) :
    registry.encode .outgoing change = .ok change.bytes :=
  encodeRecord_eq_ok_iff.mpr ⟨_, h, change.encode_descriptor⟩

end Registry

end PacketWire
