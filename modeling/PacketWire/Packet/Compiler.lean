import PacketWire.Packet.Descriptor

/-!
# A compiler that is asked again and again

One compiler serves many packets. Beside the structs it remembers it keeps the structs that are
being compiled: a struct is put on top of them when it is entered, and taken off again when it is
left, whether it compiled or not.
-/

namespace PacketWire

/-- A compiler between two steps (`LayoutCompiler`): the structs it remembers, and those in
progress, innermost first. -/
structure Compiler where
  remembered : LayoutCache := []
  inProgress : List String := []

namespace Compiler

/-- Runs a computation with one more struct in progress. Whatever comes of the computation, the
innermost struct is taken off. -/
def entering {α : Type} (type : String) (c : CompileWith Compiler α) : CompileWith Compiler α :=
  fun compiler =>
    match c { compiler with inProgress := type :: compiler.inProgress } with
    | .ok a later => .ok a { later with inProgress := later.inProgress.tail }
    | .error fault later => .error fault { later with inProgress := later.inProgress.tail }

/-- The layout of a declared struct, given how the structs inside it are compiled. -/
def structWith (table : TypeTable) (inside : String → String → String → CompileWith Compiler Layout)
    (owner field type : String) : CompileWith Compiler Layout := do
  let compiler ← get
  match compiler.remembered.lookup type with
  | some layout => pure layout
  | none =>
    if type ∈ compiler.inProgress then
      throw (.recursiveType type)
    else
      match table.find? type with
      | none => throw (.unknownType owner field type)
      | some schema =>
        let layout ← entering type
          (Compile.fields (inside schema.name) schema.name schema.fields 0)
        modify fun later => { later with remembered := (type, layout) :: later.remembered }
        pure layout

/-- The layout of a declared struct in which no more than the given number of structs are entered
inside one another (`compile_struct`). -/
def struct (table : TypeTable) : Nat → String → String → String → CompileWith Compiler Layout
  | 0 => structWith table fun _ _ type => throw (.recursiveType type)
  | depth + 1 => structWith table (struct table depth)

/-- The descriptor of a packet schema (`compile_packet`). No more structs are inside one another
than are declared. -/
def descriptor (table : TypeTable) (schema : PacketSchema) : CompileWith Compiler Descriptor := do
  return .ofSchema schema (← Compile.fields (struct table table.structs.length schema.name)
    schema.name schema.fields schema.headerLength)

/-- What a compiler answers to a schema, and the compiler afterwards. -/
def answer (table : TypeTable) (compiler : Compiler) (schema : PacketSchema) :
    Except SchemaError Descriptor × Compiler :=
  match (descriptor table schema).run compiler with
  | .ok d later => (.ok d, later)
  | .error fault later => (.error fault, later)

/-- What a compiler answers to schemas, one after another. -/
def answers (table : TypeTable) :
    Compiler → List PacketSchema → List (Except SchemaError Descriptor)
  | _, [] => []
  | compiler, schema :: rest =>
    let (found, later) := answer table compiler schema
    found :: answers table later rest

end Compiler

end PacketWire
