import PacketWire.Proofs.Stream.Chunks

/-!
# Keys that a stream can carry

Encoding looks a key up as it is; reading looks up the header first, and the sub-header only where
the header stands for a family. The two agree, but for keys with a sub-header whose header alone
belongs to a packet: that packet shadows them, and is read in their place.

* `FrameReader.resolve_of_shadows`: the packet of a header shadows all keys with that header.
* `FrameReader.read_encodeRecord`: what is encoded under any other key is read under it.
-/

namespace PacketWire

/-! ## Headers in a table -/

namespace PacketTable

/-- Where a key with a sub-header has an entry, its header has one. -/
def Headed (table : PacketTable) : Prop :=
  ∀ header sub d, table.get? ⟨header, some sub⟩ = some d →
    ∃ first, table.get? ⟨header, none⟩ = some first

theorem exists_get?_insertNew (table : PacketTable) (key : Key) (d : Descriptor) :
    ∃ first, (table.insertNew key d).get? key = some first := by
  rw [get?_insertNew, if_pos rfl]
  cases table.get? key with
  | none => exact ⟨d, rfl⟩
  | some first => exact ⟨first, rfl⟩

/-- An entry for a header alone does no harm. -/
theorem Headed.insertNew {table : PacketTable} (h : table.Headed) {key : Key} {d : Descriptor}
    (hkey : ∀ sub, key.subHeader = some sub → ∃ first, table.get? ⟨key.header, none⟩ = some first) :
    (table.insertNew key d).Headed := by
  intro header sub found hfound
  rw [get?_insertNew, Option.or_eq_some_iff] at hfound
  have hfirst : ∃ first, table.get? ⟨header, none⟩ = some first := by
    rcases hfound with hold | ⟨-, hnew⟩
    · exact h header sub found hold
    · split at hnew
      · next heq =>
        subst heq
        exact hkey sub rfl
      · cases hnew
  obtain ⟨first, hfirst⟩ := hfirst
  exact ⟨first, get?_insertNew_of_some hfirst key d⟩

theorem Headed.register {table : PacketTable} (h : table.Headed) (direction : Direction)
    (d : Descriptor) : (table.register direction d).Headed := by
  unfold PacketTable.register
  dsimp only
  split
  · have hheaded : (table.insertNew ⟨d.header, none⟩ (.family d.header direction)).Headed :=
      h.insertNew fun sub hsub => by cases hsub
    exact hheaded.insertNew fun _ _ => exists_get?_insertNew table _ _
  · next hnone =>
    refine h.insertNew fun sub hsub => absurd ?_ hnone
    rw [show d.subHeader = some sub from hsub]
    rfl

end PacketTable

namespace Registry

/-- Both tables have an entry for the header of each of their keys. -/
structure Headed (registry : Registry) : Prop where
  incoming : registry.incoming.Headed
  outgoing : registry.outgoing.Headed

theorem headed_empty : Headed {} where
  incoming := by simp [PacketTable.Headed, PacketTable.get?]
  outgoing := by simp [PacketTable.Headed, PacketTable.get?]

theorem Headed.register {registry : Registry} (h : registry.Headed) (d : Descriptor) :
    (registry.register d).Headed where
  incoming := by
    unfold Registry.register
    dsimp only
    split
    · exact h.incoming.register .incoming d
    · exact h.incoming
  outgoing := by
    unfold Registry.register
    dsimp only
    split
    · exact h.outgoing.register .outgoing d
    · exact h.outgoing

theorem build_headed {table : TypeTable} {schemas : List PacketSchema} {registry : Registry}
    (h : build table schemas = .ok registry) : registry.Headed := by
  have hyields : Compile.Yields table (registerAll table {} (builtIn ++ schemas)) Headed :=
    yields_registerAll Headed (fun _ _ d _ hheaded => hheaded.register d) headed_empty _
  exact of_build hyields h

theorem Headed.lookup {registry : Registry} (h : registry.Headed) {direction : Direction}
    {header sub : UInt8} {d : Descriptor}
    (hd : registry.get? direction ⟨header, some sub⟩ = some d) :
    ∃ first, registry.lookup direction header = some first := by
  cases direction with
  | incoming => exact h.incoming header sub d hd
  | outgoing => exact h.outgoing header sub d hd
  | both => exact h.incoming header sub d hd

end Registry

theorem Descriptor.bytes_of_encode {d : Descriptor} (h : d.Sound) {record : Record} {bytes : Bytes}
    (hencode : d.encode record = .ok bytes) : ∃ behind, bytes = d.key.bytes ++ behind := by
  obtain ⟨hwire, -⟩ := (encode_eq_ok_iff h).mp hencode
  obtain ⟨body, -, rfl⟩ := wire?_eq_some_iff.mp hwire
  exact ⟨_, rfl⟩

/-! ## Keys on a stream -/

namespace FrameReader

variable {reader : FrameReader} {key : Key} {plain d : Descriptor} {record : Record} {bytes : Bytes}

/-- The key is a header alone, and its entry only stands for a family of packets. -/
def IsFamily (reader : FrameReader) (key : Key) : Prop :=
  ∃ d, reader.registry.get? reader.direction key = some d ∧ d.isFamily = true

/-- A packet is registered for the header alone of a key that has a sub-header. -/
def Shadows (reader : FrameReader) (plain : Descriptor) (key : Key) : Prop :=
  key.subHeader ≠ none ∧ reader.registry.lookup reader.direction key.header = some plain ∧
    plain.isFamily = false

/-- The packet of a header shadows all keys with that header. -/
theorem resolve_of_shadows (hshadows : reader.Shadows plain key) (behind : Bytes) :
    reader.resolve (key.bytes ++ behind) = .ok (some plain) := by
  obtain ⟨-, hlookup, hplain⟩ := hshadows
  rw [Key.bytes, List.cons_append, resolve_cons, hlookup]
  dsimp only
  rw [hplain]
  rfl

/-- A key that no packet shadows is resolved as encoding looks it up. -/
theorem resolve_key (hheaded : reader.registry.Headed)
    (hget : reader.registry.get? reader.direction key = some d) (hd : d.isFamily = false)
    (hclear : ∀ plain, ¬reader.Shadows plain key) (behind : Bytes) :
    reader.resolve (key.bytes ++ behind) = .ok (some d) := by
  obtain ⟨header, subHeader⟩ := key
  rw [Key.bytes, List.cons_append, resolve_cons]
  cases subHeader with
  | none =>
    rw [Registry.lookup, hget]
    dsimp only
    rw [hd]
    rfl
  | some sub =>
    obtain ⟨first, hfirst⟩ := hheaded.lookup hget
    have hfamily : first.isFamily = true := by
      rw [← Bool.not_eq_false]
      intro hplain
      exact hclear first ⟨by simp, hfirst, hplain⟩
    rw [hfirst]
    dsimp only
    rw [if_pos hfamily]
    simp only [Option.toList_some, List.cons_append]
    rw [show reader.registry.lookupSub reader.direction header sub = some d from hget]

/-- Bytes that are encoded under a key, unless it is the header alone of a family, are read as one
packet with that key, and nothing of them is left. Only where a packet is registered for the header
of a key with a sub-header, the bytes select that packet. -/
theorem read_encodeRecord {table : TypeTable} {schemas : List PacketSchema}
    (hbuild : Registry.build table schemas = .ok reader.registry)
    (hencode : reader.registry.encodeRecord reader.direction key record = .ok bytes)
    (hfamily : ¬reader.IsFamily key) :
    (∀ plain, reader.Shadows plain key → reader.resolve bytes = .ok (some plain)) ∧
      ((∀ plain, ¬reader.Shadows plain key) → bytes.length ≤ reader.maxFrameSize →
        ∃ frame, reader.read bytes = ⟨[frame], none, []⟩ ∧ frame.descriptor.key = key ∧
          frame.length = bytes.length ∧
          frame.descriptor.decode bytes 0 = .ok (frame.record, bytes.length)) := by
  have hsound := Registry.build_sound hbuild
  obtain ⟨d, hget, hbytes⟩ := Registry.encodeRecord_eq_ok_iff.mp hencode
  have hd : d.isFamily = false := by
    rw [← Bool.not_eq_true]
    exact fun h => hfamily ⟨d, hget, h⟩
  obtain ⟨hkey, hdsound⟩ : d.key = key ∧ d.Sound := by
    rcases hsound.get? hget with ⟨-, hkey, hdsound⟩ | ⟨-, direction, rfl⟩
    · exact ⟨hkey, hdsound⟩
    · cases hd
  obtain ⟨behind, hfront⟩ := Descriptor.bytes_of_encode hdsound hbytes
  rw [hkey] at hfront
  refine ⟨?_, ?_⟩
  · intro plain hshadows
    rw [hfront]
    exact resolve_of_shadows hshadows behind
  · intro hclear hfits
    have hresolve := resolve_key (Registry.build_headed hbuild) hget hd hclear behind
    rw [← hfront] at hresolve
    have hcarries : reader.Carries d bytes := ⟨hresolve, ⟨record, hbytes⟩, hfits⟩
    obtain ⟨frame, ⟨rfl, hlength, hdecode⟩, hnext⟩ := next_encoded hsound hcarries
    refine ⟨frame, ?_, hkey, hlength, hdecode⟩
    have htaken := hnext []
    rw [List.append_nil] at htaken
    rw [read_of_frame htaken (List.length_pos_iff.mpr hcarries.ne_nil),
      read_of_none (next_of_unresolved rfl)]
    rfl

/-! ## Shared headers -/

/-- Three packets, two of which share a header that one of them has alone. -/
def sharedHeaders : List PacketSchema :=
  [{ name := "Plain", header := 0x32, fields := [{ name := "a", kind := .scalar .u8 }] },
    { name := "Lost", header := 0x32, subHeader := some 1,
      fields := [{ name := "x", kind := .scalar .u8 }] },
    { name := "Found", header := 0x33, subHeader := some 1,
      fields := [{ name := "x", kind := .scalar .u8 }] }]

theorem build_sharedHeaders : ∃ reader : FrameReader,
    Registry.build .empty sharedHeaders = .ok reader.registry ∧ reader.direction = .incoming ∧
      reader.maxFrameSize = 64 ∧
      (reader.registry.lookup .incoming 0x32).map (·.isFamily) = some false ∧
      (reader.registry.lookup .incoming 0x33).map (·.isFamily) = some true ∧
      (reader.registry.lookupSub .incoming 0x32 1).map (·.isFamily) = some false ∧
      (reader.registry.lookupSub .incoming 0x33 1).map (·.isFamily) = some false ∧
      reader.registry.encodeRecord .incoming ⟨0x32, some 1⟩ ⟨[("x", .u8 3)]⟩ = .ok [0x32, 1, 3] ∧
      reader.registry.encodeRecord .incoming ⟨0x33, some 1⟩ ⟨[("x", .u8 3)]⟩ = .ok [0x33, 1, 3] ∧
      reader.registry.encodeRecord .incoming ⟨0x33, none⟩ Fields.empty = .ok [0x33, 0] := by
  have hrun : (Registry.build .empty sharedHeaders).toOption.map (fun registry =>
      ([registry.lookup .incoming 0x32, registry.lookup .incoming 0x33,
          registry.lookupSub .incoming 0x32 1, registry.lookupSub .incoming 0x33 1].map
          fun found => found.map (·.isFamily),
        [registry.encodeRecord .incoming ⟨0x32, some 1⟩ ⟨[("x", .u8 3)]⟩,
          registry.encodeRecord .incoming ⟨0x33, some 1⟩ ⟨[("x", .u8 3)]⟩,
          registry.encodeRecord .incoming ⟨0x33, none⟩ Fields.empty].map (·.toOption))) =
      some ([some false, some true, some false, some false],
        [some [0x32, 1, 3], some [0x33, 1, 3], some [0x33, 0]]) := by
    decide +kernel
  obtain ⟨registry, hbuild, hfound⟩ := Option.map_eq_some_iff.mp hrun
  simp only [List.map_cons, List.map_nil, Prod.mk.injEq, List.cons.injEq, toOption_eq_some_iff,
    and_true] at hfound
  obtain ⟨⟨hplain, hfamily, hlost, hfound⟩, hencode⟩ := hfound
  exact ⟨⟨registry, .incoming, 64⟩, toOption_eq_some_iff.mp hbuild, rfl, rfl, hplain, hfamily,
    hlost, hfound, hencode⟩

/-- The shadowed packet is taken for the other; the one that is not shadowed is read as it is. -/
theorem read_sharedHeaders : ∃ (reader : FrameReader) (plain : Descriptor) (frame : Frame),
    Registry.build .empty sharedHeaders = .ok reader.registry ∧
      reader.resolve [0x32, 1, 3] = .ok (some plain) ∧ plain.isFamily = false ∧
      reader.read [0x33, 1, 3] = ⟨[frame], none, []⟩ ∧ frame.descriptor.key = ⟨0x33, some 1⟩ := by
  obtain ⟨reader, hbuild, hdirection, hlimit, hplain, hfamily, hlost, hfound, hencode, hencode',
    -⟩ := build_sharedHeaders
  rw [← hdirection] at hplain hfamily hlost hfound hencode hencode'
  obtain ⟨plain, hlookup, hplain⟩ := Option.map_eq_some_iff.mp hplain
  obtain ⟨family, hfirst, hfamily⟩ := Option.map_eq_some_iff.mp hfamily
  have hkey : ∀ header : UInt8,
      (reader.registry.lookupSub reader.direction header 1).map (·.isFamily) = some false →
      ¬reader.IsFamily ⟨header, some 1⟩ := by
    rintro header hsub ⟨d, hget, hd⟩
    rw [show reader.registry.lookupSub reader.direction header 1 = some d from hget,
      Option.map_some, hd] at hsub
    cases hsub
  obtain ⟨hshadowed, -⟩ := read_encodeRecord hbuild hencode (hkey 0x32 hlost)
  obtain ⟨-, hread⟩ := read_encodeRecord hbuild hencode' (hkey 0x33 hfound)
  obtain ⟨frame, hread, hframe, -, -⟩ := hread (by
    rintro plain ⟨-, hother, hd⟩
    rw [show reader.registry.lookup reader.direction 0x33 = some plain from hother] at hfirst
    cases hfirst
    rw [hd] at hfamily
    cases hfamily) (by rw [hlimit]; decide)
  exact ⟨reader, plain, frame, hbuild, hshadowed plain ⟨by simp, hlookup, hplain⟩, hplain, hread,
    hframe⟩

/-- Bytes that are encoded under a key need not be read under it: a packet may shadow the key, and
the header alone of a family is no packet. -/
theorem encodeRecord_misread : ∃ reader : FrameReader,
    Registry.build .empty sharedHeaders = .ok reader.registry ∧
      (reader.registry.encodeRecord reader.direction ⟨0x32, some 1⟩ ⟨[("x", .u8 3)]⟩ =
          .ok [0x32, 1, 3] ∧
        ¬∃ frame, reader.read [0x32, 1, 3] = ⟨[frame], none, []⟩ ∧
          frame.descriptor.key = ⟨0x32, some 1⟩) ∧
      reader.registry.encodeRecord reader.direction ⟨0x33, none⟩ Fields.empty = .ok [0x33, 0] ∧
      reader.read [0x33, 0] = ⟨[], some (.unknownSubHeader 0x33 0), [0x33, 0]⟩ := by
  obtain ⟨⟨registry, direction, limit⟩, hbuild, rfl, rfl, -, -, -, -, hlost, -, hfamily⟩ :=
    build_sharedHeaders
  have hrun : (Registry.build .empty sharedHeaders).toOption.map (fun registry =>
      let reader := FrameReader.mk registry .incoming 64
      ((reader.next [0x32, 1, 3]).toOption.map (·.map fun taken =>
          (taken.1.descriptor.key, taken.2)),
        match reader.next [0x33, 0] with
        | .error fault => some fault
        | .ok _ => none)) =
      some (some (some (⟨0x32, none⟩, [3])), some (.unknownSubHeader 0x33 0)) := by
    decide +kernel
  rw [toOption_eq_some_iff.mpr hbuild, Option.map_some, Option.some.injEq, Prod.mk.injEq] at hrun
  obtain ⟨hnext, hfault⟩ := hrun
  refine ⟨_, hbuild, ⟨hlost, ?_⟩, hfamily, read_of_error ?_⟩
  · obtain ⟨found, htaken, hpair⟩ := Option.map_eq_some_iff.mp hnext
    obtain ⟨⟨first, rest⟩, rfl, heq⟩ := Option.map_eq_some_iff.mp hpair
    obtain ⟨hkey, rfl⟩ := Prod.mk.inj heq
    rintro ⟨frame, hread, hframe⟩
    rw [read_of_frame (toOption_eq_some_iff.mp htaken) (by decide)] at hread
    have hsame : first = frame := (List.cons.inj (congrArg Reading.frames hread)).1
    rw [← hsame, hkey] at hframe
    cases hframe
  · split at hfault
    · next hnext =>
      cases hfault
      exact hnext
    · cases hfault

end FrameReader

end PacketWire
