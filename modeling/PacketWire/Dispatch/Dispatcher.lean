import PacketWire.Dispatch.Script

/-!
# From packets to handlers

A dispatcher binds handlers to keys; a key that is bound twice keeps its first handler. A packet
without a handler is dropped. A handler that fails or panics is a fault that names the packet.

A handler may behave differently from one packet to the next, as one with a memory does. What it
does is therefore a function of its turn, the number of packets that were dispatched before.
-/

namespace PacketWire

/-- What is done with a packet, by the number of packets that were dispatched before it
(`PacketHandler`). -/
abbrev Handler := Nat → Script Unit

/-- A handler that is given the packet in its typed form. -/
def Handler.typed {α : Type} [TypedPacket α] (handle : α → Handler) : Handler :=
  fun turn => (Script.takePacket α).bind fun packet => handle packet turn

/-- Handlers by key. -/
structure Dispatcher where
  bindings : List (Key × Handler) := []

namespace Dispatcher

/-- The handler bound to a key. -/
def handler? (dispatcher : Dispatcher) (key : Key) : Option Handler :=
  dispatcher.bindings.lookup key

/-- Whether a key has a handler (`handles`). -/
def handles (dispatcher : Dispatcher) (key : Key) : Bool := (dispatcher.handler? key).isSome

def size (dispatcher : Dispatcher) : Nat := dispatcher.bindings.length

def isEmpty (dispatcher : Dispatcher) : Bool := dispatcher.bindings.isEmpty

/-- The keys that have a handler, by header, each header alone before its sub-headers. -/
def keys (dispatcher : Dispatcher) : List Key :=
  (dispatcher.bindings.map (·.1)).mergeSort fun a b => a.rank ≤ b.rank

/-- The dispatcher in words (`fmt`): the keys that have a handler. -/
def describe (dispatcher : Dispatcher) : String :=
  let keys := ", ".intercalate (dispatcher.keys.map Key.describe)
  s!"Dispatcher \x7b handlers: [{keys}] \x7d"

/-- Binds a handler to a key that has none (`register_handler`). -/
def register (dispatcher : Dispatcher) (key : Key) (handler : Handler) : Dispatcher :=
  if dispatcher.handles key then dispatcher
  else ⟨dispatcher.bindings ++ [(key, handler)]⟩

/-- Binds a handler to the key of a packet type (`on`). -/
def registerTyped {α : Type} [TypedPacket α] (dispatcher : Dispatcher) (handle : α → Handler) :
    Dispatcher :=
  dispatcher.register (TypedPacket.key α) (Handler.typed handle)

/-- Runs the handler bound to the packet at hand (`dispatch`). -/
def dispatch (dispatcher : Dispatcher) (turn : Nat) (ctx : Context) :
    Except ProtocolError Unit × Context :=
  match dispatcher.handler? ctx.descriptor.key with
  | none => (.ok (), ctx)
  | some handler =>
    match (handler turn).run ctx with
    | (.done (), after) => (.ok (), after)
    | (.failed fault, after) => (.error (.handlerFailed ctx.descriptor.name fault.message), after)
    | (.panicked payload, after) =>
      (.error (.handlerFailed ctx.descriptor.name payload.reason), after)

end Dispatcher

end PacketWire
