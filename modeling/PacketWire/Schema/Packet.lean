import PacketWire.Schema.Error
import PacketWire.Schema.Field

/-!
# Packets, structs and the table of types

A packet schema is a header, an optional sub-header and a list of fields; a struct schema is a
named list of fields that packets and other structs may refer to. A type table holds structs of
pairwise different names.

* `TypeTable.declare_structs`: declaring a struct puts it behind those declared before.
-/

namespace PacketWire

/-- Which side of a connection sends a packet. -/
inductive Direction where
  /-- From client to server. -/
  | incoming
  /-- From server to client. -/
  | outgoing
  | both
  deriving DecidableEq, Repr

namespace Direction

def name : Direction → String
  | incoming => "incoming"
  | outgoing => "outgoing"
  | both => "both"

/-- Whether packets declared for one direction travel in another (`covers`). -/
def covers (declared wanted : Direction) : Bool :=
  declared == both || declared == wanted

end Direction

/-- A named list of fields. -/
structure StructSchema where
  name : String
  fields : List Field
  deriving DecidableEq, Repr

/-- A message as it is declared. -/
structure PacketSchema where
  name : String
  header : UInt8
  subHeader : Option UInt8 := none
  direction : Direction := .incoming
  /-- Whether a sequence byte ends the message. -/
  hasSequence : Bool := false
  fields : List Field := []
  deriving DecidableEq, Repr

/-- Bytes in front of the first field (`header_len`). -/
def PacketSchema.headerLength (schema : PacketSchema) : Nat :=
  if schema.subHeader.isSome then 2 else 1

/-- The structs that fields may refer to, under pairwise different names. -/
structure TypeTable where
  structs : List StructSchema
  nodup : (structs.map (·.name)).Nodup
  deriving DecidableEq

namespace TypeTable

/-- The table without types. -/
def empty : TypeTable := ⟨[], by simp⟩

/-- The struct declared under a name (`get`). -/
def find? (table : TypeTable) (name : String) : Option StructSchema :=
  table.structs.find? (·.name == name)

def size (table : TypeTable) : Nat := table.structs.length

def isEmpty (table : TypeTable) : Bool := table.structs.isEmpty

/-- Adds a struct under a name that is still free (`declare`). -/
def declare (table : TypeTable) (schema : StructSchema) : Except SchemaError TypeTable :=
  if h : schema.name ∈ table.structs.map (·.name) then
    .error (.duplicateType schema.name)
  else
    .ok ⟨table.structs ++ [schema], by
      simp only [List.map_append, List.map_cons, List.map_nil]
      exact List.nodup_append.mpr ⟨table.nodup, by simp, fun a ha b hb hab => by
        simp only [List.mem_singleton] at hb
        exact h (hb ▸ hab ▸ ha)⟩⟩

/-- Declares structs one after another (`build`); the first repeated name is refused. -/
def ofList (schemas : List StructSchema) : Except SchemaError TypeTable :=
  schemas.foldlM declare empty

theorem declare_structs {table next : TypeTable} {schema : StructSchema}
    (h : table.declare schema = .ok next) : next.structs = table.structs ++ [schema] := by
  unfold declare at h
  split at h
  · cases h
  · cases h
    rfl

end TypeTable

end PacketWire
