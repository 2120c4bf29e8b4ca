import PacketWire.Proofs.Layout.Remembered
import PacketWire.Proofs.Packet.Registry

/-!
# Who comes first

Which packet a registry has under a key is decided by the first schema that claims the key in the
direction asked for: one with the same header and sub-header, or, where a header is asked for alone,
one with that header. A schema with a sub-header claims its header alone for its family.

* `PacketTable.get?_register`: what one more packet adds to a table.
* `Registry.get?_foldl_register`: what is found after registering many.
* `Registry.build_eq`: building is compiling every schema on its own and registering what comes out.
* `Registry.build_contents`: so a registry is decided by first registrations.
-/

namespace PacketWire

/-! ## Registering one after another -/

/-- What a packet is entered as under a key: itself under its own key, and under its header alone
its family if it has a sub-header. -/
def Descriptor.listed? (d : Descriptor) (direction : Direction) (key : Key) : Option Descriptor :=
  if key.header = d.header then
    match key.subHeader with
    | some sub => if d.subHeader = some sub then some d else none
    | none => some (if d.subHeader.isSome then .family key.header direction else d)
  else none

/-- A packet is entered where no earlier one was. -/
theorem PacketTable.get?_register (table : PacketTable) (direction : Direction) (d : Descriptor)
    (key : Key) :
    (table.register direction d).get? key = (table.get? key).or (d.listed? direction key) := by
  obtain ⟨header, sub⟩ := key
  unfold register Descriptor.listed? Descriptor.key
  rw [get?_insertNew]
  cases hsub : d.subHeader with
  | none =>
    cases sub <;> by_cases hheader : header = d.header <;> simp [hheader, eq_comm]
  | some own =>
    simp only [Option.isSome_some, if_true, get?_insertNew, Key.mk.injEq, Option.or_assoc]
    cases sub <;> by_cases hheader : header = d.header <;> simp [hheader, eq_comm]

theorem PacketTable.get?_foldl_register (direction : Direction) (packets : List Descriptor)
    (table : PacketTable) (key : Key) :
    (packets.foldl (·.register direction ·) table).get? key =
      (table.get? key).or (packets.findSome? (·.listed? direction key)) := by
  induction packets generalizing table with
  | nil => rw [List.foldl_nil, List.findSome?_nil, Option.or_none]
  | cons d packets ih =>
    rw [List.foldl_cons, ih, get?_register, Option.or_assoc, List.findSome?_cons]
    cases d.listed? direction key <;> rfl

namespace Registry

theorem table_register (registry : Registry) (d : Descriptor) {direction : Direction}
    (h : direction ≠ .both) :
    (registry.register d).table direction =
      if d.direction.covers direction then (registry.table direction).register direction d
      else registry.table direction := by
  cases direction with
  | incoming => rfl
  | outgoing => rfl
  | both => exact absurd rfl h

/-- Each direction has the packets that travel in it, in the order in which they were registered. -/
theorem table_foldl_register (packets : List Descriptor) (registry : Registry)
    {direction : Direction} (h : direction ≠ .both) :
    (packets.foldl register registry).table direction =
      (packets.filter (·.direction.covers direction)).foldl (·.register direction ·)
        (registry.table direction) := by
  induction packets generalizing registry with
  | nil => rfl
  | cons d packets ih =>
    rw [List.foldl_cons, ih, table_register registry d h, List.filter_cons]
    cases d.direction.covers direction <;> rfl

/-- Under a key stands what the first packet that has an entry there is entered as. -/
theorem get?_foldl_register (packets : List Descriptor) {direction : Direction}
    (h : direction ≠ .both) (key : Key) :
    (packets.foldl register {}).get? direction key =
      (packets.filter (·.direction.covers direction)).findSome? (·.listed? direction key) := by
  have hempty : (table {} direction).get? key = none := by
    cases direction <;> rfl
  rw [get?, table_foldl_register packets {} h, PacketTable.get?_foldl_register, hempty,
    Option.none_or]

end Registry

/-! ## Compiling one after another -/

section Compiling

variable {α β ε : Type} {f : α → Except ε β}

theorem mapM_ok_iff {items : List α} :
    (∃ found, items.mapM f = .ok found) ↔ ∀ a ∈ items, ∃ b, f a = .ok b := by
  induction items with
  | nil => simp [pure, Except.pure]
  | cons a items ih =>
    rw [List.forall_mem_cons, ← ih, List.mapM_cons]
    simp only [bind_eq_ok_iff, pure_eq_ok_iff]
    constructor
    · rintro ⟨_, b, hb, found, hfound, -⟩
      exact ⟨⟨b, hb⟩, found, hfound⟩
    · rintro ⟨⟨b, hb⟩, found, hfound⟩
      exact ⟨b :: found, b, hb, found, hfound, rfl⟩

theorem mapM_cons_error_iff {a : α} {items : List α} {fault : ε} :
    (a :: items).mapM f = .error fault ↔
      f a = .error fault ∨ (∃ b, f a = .ok b) ∧ items.mapM f = .error fault := by
  rw [List.mapM_cons]
  cases f a with
  | error first => simp [bind, Except.bind]
  | ok b => cases items.mapM f <;> simp [bind, Except.bind, pure, Except.pure]

/-- The fault is that of the first item that has one. -/
theorem mapM_error_iff {items : List α} {fault : ε} :
    items.mapM f = .error fault ↔ ∃ before a after, items = before ++ a :: after ∧
      (∀ b ∈ before, ∃ c, f b = .ok c) ∧ f a = .error fault := by
  induction items with
  | nil => simp [pure, Except.pure]
  | cons a items ih =>
    rw [mapM_cons_error_iff, ih]
    constructor
    · rintro (ha | ⟨ha, before, other, after, rfl, hbefore, hother⟩)
      · exact ⟨[], a, items, rfl, by simp, ha⟩
      · exact ⟨a :: before, other, after, rfl, List.forall_mem_cons.mpr ⟨ha, hbefore⟩, hother⟩
    · rintro ⟨before, other, after, hsplit, hbefore, hother⟩
      cases before with
      | nil =>
        obtain ⟨rfl, rfl⟩ := List.cons.inj hsplit
        exact .inl hother
      | cons b before =>
        obtain ⟨rfl, rfl⟩ := List.cons.inj hsplit
        obtain ⟨ha, hbefore⟩ := List.forall_mem_cons.mp hbefore
        exact .inr ⟨ha, before, other, after, rfl, hbefore, hother⟩

end Compiling

namespace Registry

open Compile in
/-- Registering all compiles each schema as it compiles on its own. -/
theorem registerAll_eq {table : TypeTable} {cache : LayoutCache} (h : Faithful table cache)
    (schemas : List PacketSchema) (registry : Registry) :
    match registerAll table registry schemas cache with
    | .ok final _ => ∃ packets, schemas.mapM (PacketSchema.compile · table) = .ok packets ∧
      final = packets.foldl register registry
    | .error fault _ => schemas.mapM (PacketSchema.compile · table) = .error fault := by
  induction schemas generalizing registry cache with
  | nil => exact ⟨[], rfl, rfl⟩
  | cons schema schemas ih =>
    have hfirst := descriptor_eq_compile h schema
    change match EStateM.bind (descriptor table schema) _ cache with
      | .ok final _ => ∃ packets,
        (schema :: schemas).mapM (PacketSchema.compile · table) = .ok packets ∧
          final = packets.foldl register registry
      | .error fault _ => (schema :: schemas).mapM (PacketSchema.compile · table) = .error fault
    rw [EStateM.bind, List.mapM_cons]
    cases hrun : descriptor table schema cache with
    | error fault later =>
      rw [hrun] at hfirst
      rw [hfirst.1]
      rfl
    | ok d later =>
      rw [hrun] at hfirst
      have hrest := ih hfirst.2 (registry.register d)
      rw [hfirst.1]
      dsimp only
      cases hnext : registerAll table (registry.register d) schemas later with
      | error fault last =>
        rw [hnext] at hrest
        dsimp only at hrest ⊢
        rw [hrest]
        rfl
      | ok final last =>
        rw [hnext] at hrest
        obtain ⟨packets, hpackets, hfinal⟩ := hrest
        exact ⟨d :: packets, by rw [hpackets]; rfl, hfinal⟩

/-- A registry is built from what each schema compiles to on its own. -/
theorem build_eq (table : TypeTable) (schemas : List PacketSchema) :
    build table schemas = ((builtIn ++ schemas).mapM (PacketSchema.compile · table)).map
      (·.foldl register {}) := by
  have hall := registerAll_eq (Compile.faithful_nil table) (builtIn ++ schemas) {}
  unfold build EStateM.run
  cases hrun : registerAll table {} (builtIn ++ schemas) [] with
  | ok final later =>
    rw [hrun] at hall
    obtain ⟨packets, hpackets, rfl⟩ := hall
    rw [hpackets]
    rfl
  | error fault later =>
    rw [hrun] at hall
    dsimp only at hall ⊢
    rw [hall]
    rfl

/-- The handshake and the phase change always compile. -/
theorem mapM_builtIn_append (table : TypeTable) (schemas : List PacketSchema) :
    ∃ handshake phaseChange, Handshake.schema.compile table = .ok handshake ∧
      PhaseChange.schema.compile table = .ok phaseChange ∧
      (builtIn ++ schemas).mapM (PacketSchema.compile · table) =
        (schemas.mapM (PacketSchema.compile · table)).map fun packets =>
          handshake :: phaseChange :: packets := by
  have hfirst : Handshake.schema.compile table = .ok Handshake.descriptor := by
    unfold PacketSchema.compile EStateM.run
    rw [Compile.descriptor_handshake]
  have hsecond : PhaseChange.schema.compile table = .ok PhaseChange.descriptor := by
    unfold PacketSchema.compile EStateM.run
    rw [Compile.descriptor_phaseChange]
  refine ⟨_, _, hfirst, hsecond, ?_⟩
  unfold builtIn
  rw [List.cons_append, List.cons_append, List.nil_append, List.mapM_cons, List.mapM_cons, hfirst,
    hsecond]
  cases schemas.mapM (PacketSchema.compile · table) <;> rfl

/-! ## First registrations -/

/-- The schemas of the packets that travel in a direction, in the order of registration. -/
def candidates (schemas : List PacketSchema) (direction : Direction) : List PacketSchema :=
  (builtIn ++ schemas).filter (·.direction.covers direction)

/-- The compiled packet of a schema, if it compiles. -/
def compiled? (table : TypeTable) (schema : PacketSchema) : Option Descriptor :=
  (schema.compile table).toOption

/-- A choice among items, by what the first item of a kind comes to. -/
theorem findSome?_eq_bind_find? {α β : Type} {choose result : α → Option β} {p : α → Bool}
    {items : List α} (hpos : ∀ a ∈ items, p a = true → choose a = result a ∧ result a ≠ none)
    (hneg : ∀ a ∈ items, p a = false → choose a = none) :
    items.findSome? choose = (items.find? p).bind result := by
  induction items with
  | nil => rfl
  | cons a items ih =>
    rw [List.forall_mem_cons] at hpos hneg
    rw [List.findSome?_cons, List.find?_cons, ih hpos.2 hneg.2]
    cases hp : p a with
    | true =>
      obtain ⟨hchoose, hresult⟩ := hpos.1 hp
      obtain ⟨b, hb⟩ := Option.ne_none_iff_exists'.mp hresult
      simp only [hchoose, hb, Option.bind_some]
    | false => simp only [hneg.1 hp]

/-- Under a key stands what the first schema that claims it is entered as. -/
theorem get?_of_packets {table : TypeTable} {schemas : List PacketSchema}
    {packets : List Descriptor}
    (h : (builtIn ++ schemas).mapM (PacketSchema.compile · table) = .ok packets)
    {direction : Direction} (hdirection : direction ≠ .both) (key : Key) :
    (packets.foldl register {}).get? direction key =
      (candidates schemas direction).findSome? fun schema =>
        (compiled? table schema).bind (·.listed? direction key) := by
  rw [get?_foldl_register packets hdirection, candidates]
  generalize builtIn ++ schemas = all at h
  induction all generalizing packets with
  | nil =>
    cases h
    rfl
  | cons schema all ih =>
    rw [List.mapM_cons] at h
    simp only [bind_eq_ok_iff, pure_eq_ok_iff] at h
    obtain ⟨d, hd, found, hfound, rfl⟩ := h
    have hsame : d.direction = schema.direction := by
      rw [(PacketSchema.compile_ok hd).eq_ofSchema]
      rfl
    rw [List.filter_cons, List.filter_cons, hsame]
    cases schema.direction.covers direction with
    | false => exact ih hfound
    | true =>
      simp only [if_true, List.findSome?_cons, ih hfound, compiled?, hd]
      rfl

/-- What the packet of a schema is entered as, by what the schema declares. -/
theorem listed?_compiled? {table : TypeTable} {schema : PacketSchema} {d : Descriptor}
    (hd : schema.compile table = .ok d) (direction : Direction) (key : Key) :
    (compiled? table schema).bind (·.listed? direction key) =
      if key.header = schema.header then
        match key.subHeader with
        | some sub => if schema.subHeader = some sub then compiled? table schema else none
        | none =>
          if schema.subHeader.isSome then some (.family key.header direction)
          else compiled? table schema
      else none := by
  have hheader : d.header = schema.header :=
    congrArg Descriptor.header (PacketSchema.compile_ok hd).eq_ofSchema
  have hsub : d.subHeader = schema.subHeader :=
    congrArg Descriptor.subHeader (PacketSchema.compile_ok hd).eq_ofSchema
  have hfound : compiled? table schema = some d := by
    rw [compiled?, hd]
    rfl
  rw [hfound, Option.bind_some, Descriptor.listed?, hheader, hsub]
  cases key.subHeader with
  | some sub => rfl
  | none => cases schema.subHeader <;> rfl

section

variable {table : TypeTable} {schemas : List PacketSchema} {packets : List Descriptor}
  (h : (builtIn ++ schemas).mapM (PacketSchema.compile · table) = .ok packets)
  {direction : Direction} (hdirection : direction ≠ .both) (header : UInt8)
include h hdirection

/-- Under a header and a sub-header stands the packet of the first schema with both. -/
theorem get?_sub_of_packets (sub : UInt8) :
    (packets.foldl register {}).get? direction ⟨header, some sub⟩ =
      ((candidates schemas direction).find? fun schema =>
        schema.header == header && schema.subHeader == some sub).bind (compiled? table) := by
  rw [get?_of_packets h hdirection]
  refine findSome?_eq_bind_find? (fun schema hschema hclaims => ?_) fun schema hschema hclaims => ?_
  all_goals
    obtain ⟨d, hd⟩ := mapM_ok_iff.mp ⟨packets, h⟩ schema (List.mem_of_mem_filter hschema)
    rw [listed?_compiled? hd]
  · obtain ⟨rfl, hsub⟩ : schema.header = header ∧ schema.subHeader = some sub := by
      simpa using hclaims
    rw [if_pos rfl]
    dsimp only
    rw [if_pos hsub, compiled?, hd]
    exact ⟨rfl, by simp [Except.toOption]⟩
  · have hclaims : schema.header = header → schema.subHeader ≠ some sub := by
      simpa using hclaims
    dsimp only
    split
    · next hheader => rw [if_neg (hclaims hheader.symm)]
    · rfl

/-- Under a header alone stands what the first schema with that header has there: its packet, or the
family of the header. -/
theorem get?_header_of_packets :
    (packets.foldl register {}).get? direction ⟨header, none⟩ =
      ((candidates schemas direction).find? fun schema => schema.header == header).bind
        fun schema => if schema.subHeader.isSome then some (.family header direction)
          else compiled? table schema := by
  rw [get?_of_packets h hdirection]
  refine findSome?_eq_bind_find? (fun schema hschema hclaims => ?_) fun schema hschema hclaims => ?_
  all_goals
    obtain ⟨d, hd⟩ := mapM_ok_iff.mp ⟨packets, h⟩ schema (List.mem_of_mem_filter hschema)
    rw [listed?_compiled? hd]
  · obtain rfl : schema.header = header := by simpa using hclaims
    rw [if_pos rfl]
    refine ⟨rfl, ?_⟩
    rw [compiled?, hd]
    cases schema.subHeader <;> simp [Except.toOption]
  · have hclaims : schema.header ≠ header := by simpa using hclaims
    rw [if_neg hclaims.symm]

end

/-- A registry is built exactly when every schema compiles, and else the fault is that of the first
one that does not. What it then has under a key is decided by the first candidate that claims the
key, behind the handshake and the phase change, which are always there. -/
theorem build_contents (table : TypeTable) (schemas : List PacketSchema) :
    ((∃ registry, build table schemas = .ok registry) ↔
      ∀ schema ∈ schemas, ∃ d, schema.compile table = .ok d) ∧
    (∀ fault, build table schemas = .error fault ↔
      ∃ before schema after, schemas = before ++ schema :: after ∧
        (∀ other ∈ before, ∃ d, other.compile table = .ok d) ∧
        schema.compile table = .error fault) ∧
    ∀ registry, build table schemas = .ok registry →
      (∀ direction, direction ≠ .both → ∀ header,
        (∀ sub, registry.get? direction ⟨header, some sub⟩ =
          ((candidates schemas direction).find? fun schema =>
            schema.header == header && schema.subHeader == some sub).bind (compiled? table)) ∧
        registry.get? direction ⟨header, none⟩ =
          ((candidates schemas direction).find? fun schema => schema.header == header).bind
            fun schema => if schema.subHeader.isSome then some (.family header direction)
              else compiled? table schema) ∧
      (∃ d, Handshake.schema.compile table = .ok d ∧
        registry.get? .incoming Handshake.key = some d ∧
        registry.get? .outgoing Handshake.key = some d) ∧
      ∃ d, PhaseChange.schema.compile table = .ok d ∧
        registry.get? .outgoing PhaseChange.key = some d := by
  obtain ⟨handshake, phaseChange, hhandshake, hphaseChange, hall⟩ :=
    mapM_builtIn_append table schemas
  rw [build_eq, ← mapM_ok_iff]
  simp only [← mapM_error_iff]
  cases hschemas : schemas.mapM (PacketSchema.compile · table) with
  | error first =>
    rw [hall, hschemas]
    simp [Except.map]
  | ok packets =>
    rw [hschemas] at hall
    rw [hall]
    refine ⟨by simp [Except.map], by simp [Except.map], fun registry hregistry => ?_⟩
    cases hregistry
    have hfirst : compiled? table Handshake.schema = some handshake :=
      congrArg Except.toOption hhandshake
    have hsecond : compiled? table PhaseChange.schema = some phaseChange :=
      congrArg Except.toOption hphaseChange
    refine ⟨fun direction hdirection header => ⟨fun sub => ?_, ?_⟩,
      ⟨handshake, hhandshake, ?_, ?_⟩, phaseChange, hphaseChange, ?_⟩
    · exact get?_sub_of_packets hall hdirection header sub
    · exact get?_header_of_packets hall hdirection header
    · exact (get?_header_of_packets hall (by decide) 0xFF).trans hfirst
    · exact (get?_header_of_packets hall (by decide) 0xFF).trans hfirst
    · exact (get?_header_of_packets hall (by decide) 0xFD).trans hsecond

/-- A packet with a sub-header takes its header for the family, so that a later plain packet is not
found there; the other way round the plain packet stays. -/
example :
    let member : PacketSchema := { name := "Member", header := 0x30, subHeader := some 1 }
    let plain : PacketSchema := { name := "Plain", header := 0x30 }
    ([[member, plain], [plain, member]].map fun schemas =>
      (build .empty schemas).toOption.bind fun registry =>
        (registry.get? .incoming ⟨0x30, none⟩).map (·.name)) =
      [some "family 0x30", some "Plain"] := by
  decide +kernel

end Registry

end PacketWire
