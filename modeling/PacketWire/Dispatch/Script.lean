import PacketWire.Session

/-!
# What a handler does

A handler is given a packet and the session it came in by. Its context lets it look at the packet,
take it away, look at the phase, queue packets, move the phase on and ask for the connection to
close. It holds the session itself as well, so it can look at all of it, take the queue, reach the
handshake, or put another session in its place. It may also fail, or panic. A script lists these
operations one after another; what follows an operation may depend on its result, a fault included.
Whatever else a handler does, it does not do to the connection.

* `run_bind`: running two scripts one after the other is running their composition.
-/

namespace PacketWire

/-- What a panicking handler leaves behind. -/
inductive Panic where
  | text (s : String)
  /-- Something that is not a text. -/
  | other
  deriving DecidableEq, Repr

/-- Why a handler that panicked failed (`panic_message`). -/
def Panic.reason : Panic → String
  | text s => "handler panicked: " ++ s
  | other => "Packet handler panicked"

/-- What a handler works on (`PacketContext`): a packet and the session it came in by. -/
structure Context where
  packet : Record
  descriptor : Descriptor
  session : Session

/-- Operations on a context, ending in a value, a fault or a panic. -/
inductive Script (α : Type) where
  | done (value : α)
  | fail (fault : ProtocolError)
  | panic (payload : Panic)
  /-- Looks at the packet. -/
  | look (next : Record → Script α)
  /-- Takes the packet, leaving an empty record. -/
  | take (next : Record → Script α)
  /-- Looks at the phase. -/
  | phase (next : Phase → Script α)
  /-- Queues a packet. -/
  | send (key : Key) (record : Record) (next : Except ProtocolError Unit → Script α)
  /-- Moves the phase on. -/
  | move (phase : Phase) (next : Except ProtocolError Unit → Script α)
  /-- Asks for the connection to close. -/
  | close (next : Script α)
  /-- Looks at the session. -/
  | inspect (next : Session → Script α)
  /-- Takes the packets that wait to be written. -/
  | drain (next : List Bytes → Script α)
  /-- Changes the handshake, and sees what it was. -/
  | handshake (change : Handshake.State → Handshake.State) (next : Handshake.State → Script α)
  /-- Puts another session in place of this one, and keeps this one. -/
  | replace (session : Session) (next : Session → Script α)

/-- How a script ended. -/
inductive Ending (α : Type) where
  | done (value : α)
  | failed (fault : ProtocolError)
  | panicked (payload : Panic)

namespace Script

variable {α β : Type}

/-- Goes on with another script where a script ends in a value. -/
def bind : Script α → (α → Script β) → Script β
  | done value, f => f value
  | fail fault, _ => fail fault
  | panic payload, _ => panic payload
  | look next, f => look fun record => (next record).bind f
  | take next, f => take fun record => (next record).bind f
  | phase next, f => phase fun current => (next current).bind f
  | send key record next, f => send key record fun result => (next result).bind f
  | move target next, f => move target fun result => (next result).bind f
  | close next, f => close (next.bind f)
  | inspect next, f => inspect fun session => (next session).bind f
  | drain next, f => drain fun packets => (next packets).bind f
  | handshake change next, f => handshake change fun state => (next state).bind f
  | replace session next, f => replace session fun own => (next own).bind f

instance : Monad Script where
  pure := done
  bind := bind

/-- Goes on where an operation succeeded, and fails with its fault where it did not. -/
def ofExcept : Except ProtocolError α → Script α
  | .ok value => done value
  | .error fault => fail fault

/-- Runs a script: how it ends, and what it leaves. -/
def run : Script α → Context → Ending α × Context
  | done value, ctx => (.done value, ctx)
  | fail fault, ctx => (.failed fault, ctx)
  | panic payload, ctx => (.panicked payload, ctx)
  | look next, ctx => (next ctx.packet).run ctx
  | take next, ctx => (next ctx.packet).run { ctx with packet := .empty }
  | phase next, ctx => (next ctx.session.phase).run ctx
  | send key record next, ctx =>
    let (result, session) := ctx.session.sendRecord key record
    (next result).run { ctx with session }
  | move target next, ctx =>
    let (result, session) := ctx.session.setPhase target
    (next result).run { ctx with session }
  | close next, ctx => next.run { ctx with session := ctx.session.close }
  | inspect next, ctx => (next ctx.session).run ctx
  | drain next, ctx =>
    let (packets, session) := ctx.session.drain
    (next packets).run { ctx with session }
  | handshake change next, ctx =>
    (next ctx.session.handshake).run { ctx with session := ctx.session.onHandshake change }
  | replace session next, ctx => (next ctx.session).run { ctx with session }

theorem run_bind (script : Script α) (f : α → Script β) (ctx : Context) :
    (script.bind f).run ctx =
      match script.run ctx with
      | (.done value, ctx) => (f value).run ctx
      | (.failed fault, ctx) => (.failed fault, ctx)
      | (.panicked payload, ctx) => (.panicked payload, ctx) := by
  induction script generalizing ctx with
  | done | fail | panic => rfl
  | look next ih | take next ih | phase next ih | inspect next ih | drain next ih =>
    simp only [bind, run, ih]
  | send key record next ih | move target next ih => simp only [bind, run, ih]
  | handshake change next ih | replace session next ih => simp only [bind, run, ih]
  | close next ih => simp only [bind, run, ih]

/-! ## Operations that fail with the fault they meet -/

/-- Queues a packet given as a record (`send_record`). -/
def sendRecord (key : Key) (record : Record) : Script Unit := send key record ofExcept

/-- Queues a packet with a key of its own (`send`). -/
def sendPacket [TypedPacket α] (packet : α) : Script Unit :=
  sendRecord (TypedPacket.key α) (RecordForm.toRecord packet)

/-- Moves the phase on (`set_phase`). -/
def setPhase (target : Phase) : Script Unit := move target ofExcept

/-- Asks for the connection to close (`close`). -/
def closeSession : Script Unit := close (done ())

/-- Takes the packet in its typed form (`take_packet`). -/
def takePacket (α : Type) [TypedPacket α] : Script α :=
  take fun record => ofExcept (ProtocolError.ofCodec (RecordForm.ofRecord record))

/-- Queues the packet at hand under a key. -/
def echo (key : Key) : Script Unit := look fun record => sendRecord key record

end Script

end PacketWire
