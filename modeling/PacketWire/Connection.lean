import PacketWire.Clock
import PacketWire.Dispatch.Dispatcher
import PacketWire.Metrics
import PacketWire.Stream.FrameReader

/-!
# Connections

A connection opens a handshake and then takes packets off its stream, one after another: until the
handshake is settled only replies to it, afterwards only packets for the dispatcher. What is queued
while a packet is dealt with is written when that is done, and not at all when it fails. Every
fault ends this connection and nothing else.

A connection is moved by events: bytes arrive, the stream ends or fails, time passes, a shutdown is
asked for. After each event it has dealt with every packet that is complete. A write may fail at any
byte of it, the opening packet and a packet in the middle of a queue included.
-/

namespace PacketWire

/-- How a connection ended. -/
inductive Outcome where
  /-- The peer left, a handler closed the session, or a shutdown was asked for. -/
  | finished
  | failed (fault : ProtocolError)
  /-- The task that ran the connection broke off. -/
  | aborted
  deriving DecidableEq, Repr

/-- What the connections of a server share. -/
structure Services where
  registry : Registry
  dispatcher : Dispatcher := {}
  handshake : HandshakeSettings := {}
  mode : ServerMode := .game
  maxFrameSize : Nat := 64 * 1024

/-- What the stream of a connection is read by. -/
def Services.reader (services : Services) : FrameReader where
  registry := services.registry
  direction := .incoming
  maxFrameSize := services.maxFrameSize

/-- Where the writes to a stream fail: some succeed, then one fails in the middle. -/
structure WriteFault where
  error : StreamError
  /-- The number of writes that succeed before. -/
  after : Nat := 0
  /-- How many bytes of the one that fails are written, if it has as many. -/
  part : Nat := 0
  deriving DecidableEq, Repr

/-- A stream that fails at once. -/
instance : Coe StreamError WriteFault := ⟨fun error => { error }⟩

/-- A session and its byte stream. -/
structure Connection where
  services : Services
  session : Session
  metrics : Metrics := {}
  /-- The bytes that came in and are not yet part of a packet dealt with. -/
  buffer : Bytes := []
  /-- The bytes written, first to last. -/
  written : Bytes := []
  /-- The packets dispatched so far. -/
  turn : Nat := 0
  /-- The readings taken from the clock so far. -/
  readings : Nat := 0
  /-- The time since the handshake was opened. -/
  elapsed : Duration := ⟨0⟩
  /-- Where its writes fail from now on, if they do. -/
  writeFault : Option WriteFault := none
  /-- How the connection ended, once it has. -/
  outcome : Option Outcome := none

namespace Connection

/-- Why the work on a connection stops before its end. -/
inductive Halt where
  | fault (fault : ProtocolError)
  | abort
  deriving DecidableEq, Repr

/-- Work on a connection, which stays as it was left when the work stops early. -/
abbrev Work := EStateM Halt Connection

namespace Work

/-- Stops at a fault. -/
def ofExcept {α : Type} : Except ProtocolError α → Work α
  | .ok value => pure value
  | .error fault => throw (.fault fault)

/-- Changes the session, and stops where that is refused. -/
def onSession {α : Type} (change : Session → Except ProtocolError α × Session) : Work α := do
  let (result, session) := change (← get).session
  modify ({ · with session })
  ofExcept result

def count (change : Metrics → Metrics) : Work Unit :=
  modify fun c => { c with metrics := change c.metrics }

/-- Reads the clock. A reading that fails takes the whole task with it. -/
def readClock (clock : Clock) : Work UInt32 := do
  let reading := (← get).readings
  modify ({ · with readings := reading + 1 })
  match clock reading with
  | some now => pure now
  | none => throw .abort

/-! ## Writing -/

/-- How many bytes are held back before they are written. -/
def highWater : Nat := 8 * 1024

/-- The fault of a write (`peer_gone`). A peer that has gone has closed the connection. -/
def peerGone : StreamError → ProtocolError
  | .brokenPipe | .connectionReset => .connectionClosed
  | other => .stream other

/-- Writes bytes, or those of them that come before the stream fails. -/
def writeOut (bytes : Bytes) : Work Unit := do
  match (← get).writeFault with
  | none => modify fun c => { c with written := c.written ++ bytes }
  | some ⟨error, 0, part⟩ =>
    modify fun c => { c with written := c.written ++ bytes.take part }
    throw (.fault (peerGone error))
  | some ⟨error, after + 1, part⟩ =>
    modify fun c =>
      { c with written := c.written ++ bytes, writeFault := some ⟨error, after, part⟩ }

/-- Hands packets to the stream, which holds them back up to a limit, and then has it write them. -/
def handOver : Bytes → List Bytes → Work Unit
  | held, [] => writeOut held
  | held, packet :: rest => do
    let held ← if highWater ≤ held.length then (do writeOut held; pure []) else pure held
    count (·.packetSent (.ofNat packet.length))
    handOver (held ++ packet) rest

/-- Writes every queued packet (`flush`). -/
def flush : Work Unit := do
  let (packets, session) := (← get).session.drain
  modify ({ · with session })
  if packets.isEmpty then pure () else handOver [] packets

/-! ## The handshake -/

/-- Opens the handshake (`begin_handshake`). -/
def openHandshake (nonce : UInt32) (clock : Clock) : Work Unit := do
  let now ← readClock clock
  let opening ← onSession (·.startHandshake nonce now)
  count (·.handshakeAttempt)
  onSession (·.send opening)

/-- Deals with a reply to the handshake (`on_handshake`). -/
def answer (reply : Handshake) (clock : Clock) : Work Unit := do
  let now ← readClock clock
  let c ← get
  let (result, session) := c.session.verifyHandshake reply now c.services.handshake
  modify ({ · with session })
  match result with
  | .ok .complete =>
    count (·.handshakeSuccess)
    onSession (·.setPhase c.services.mode.phaseAfterHandshake)
  | .ok (.retry next) => onSession (·.send next)
  | .error fault =>
    count (·.handshakeFailed)
    throw (.fault fault)

/-! ## Packets -/

/-- Hands a packet to its handler. -/
def dispatch (frame : Frame) : Work Unit := do
  let c ← get
  let (result, ctx) := c.services.dispatcher.dispatch c.turn
    { packet := frame.record, descriptor := frame.descriptor, session := c.session }
  modify ({ · with session := ctx.session, turn := c.turn + 1 })
  match result with
  | .ok () => pure ()
  | .error fault =>
    count (·.handlerFailure)
    throw (.fault fault)

/-- Deals with a packet (`handle`): a reply to the handshake while that is open, any other packet
afterwards. -/
def handle (frame : Frame) (clock : Clock) : Work Unit := do
  let phase := (← get).session.phase
  let isReply := frame.descriptor.key == Handshake.key
  if phase = .handshake then
    if isReply then
      let reply ← ofExcept (ProtocolError.ofCodec (Handshake.ofRecord frame.record))
      answer reply clock
    else throw (.fault (.unexpectedPacket frame.descriptor.name phase))
  else if isReply then throw (.fault (.unexpectedPacket frame.descriptor.name phase))
  else dispatch frame

/-- Takes the next packet off the buffer and deals with it; false while more bytes are needed. -/
def takeFrame (clock : Clock) : Work Bool := do
  let c ← get
  match c.services.reader.next c.buffer with
  | .error fault =>
    match fault with
    | .unknownHeader _ | .unknownSubHeader _ _ => count (·.unknownHeader)
    | _ => pure ()
    throw (.fault fault)
  | .ok none => return false
  | .ok (some (frame, rest)) =>
    modify ({ · with buffer := rest })
    count (·.packetReceived (.ofNat frame.length))
    handle frame clock
    flush
    return true

end Work

/-! ## Events -/

/-- The connection at its end (`run`). -/
def finish (c : Connection) (outcome : Outcome) : Connection :=
  let metrics := match outcome with
    | .failed _ => c.metrics.protocolError
    | .finished | .aborted => c.metrics
  { c with outcome := some outcome, metrics }

/-- The connection after work that stopped early. -/
def halt (c : Connection) : Halt → Connection
  | .fault fault => c.finish (.failed fault)
  | .abort => c.finish .aborted

/-- Deals with every packet that is complete, until the session is closed or more bytes are
needed (`serve`). -/
def pump (clock : Clock) (c : Connection) : Connection :=
  if c.session.isClosing then c.finish .finished
  else
    match (Work.takeFrame clock).run c with
    | .error stop after => after.halt stop
    | .ok false after => after
    | .ok true after =>
      if after.buffer.length < c.buffer.length then pump clock after else after
termination_by c.buffer.length

/-- A new connection on a stream that may already fail, with the opening packet of its handshake
written. -/
def start (services : Services) (id : SessionId) (peer : Option SocketAddress) (nonce : UInt32)
    (clock : Clock) (metrics : Metrics) (readings : Nat)
    (writeFault : Option WriteFault := none) : Connection :=
  let c : Connection :=
    { services, metrics, readings, writeFault
      session := { id, peer, registry := services.registry } }
  match (do Work.openHandshake nonce clock; Work.flush : Work Unit).run c with
  | .error stop after => after.halt stop
  | .ok () after => after.pump clock

/-- Whether the connection has ended, after which no event changes it. -/
def hasEnded (c : Connection) : Bool := c.outcome.isSome

/-- Bytes arrive. -/
def receive (c : Connection) (clock : Clock) (bytes : Bytes) : Connection :=
  if c.hasEnded then c else { c with buffer := c.buffer ++ bytes }.pump clock

/-- The stream ends. What is left of a packet is a fault. -/
def endStream (c : Connection) : Connection :=
  if c.hasEnded then c
  else if c.buffer.isEmpty then c.finish .finished
  else c.finish (.failed .truncated)

/-- The stream fails to be read. -/
def failRead (c : Connection) (fault : StreamError) : Connection :=
  if c.hasEnded then c else c.finish (.failed (.stream fault))

/-- From now on writes fail, once those that still succeed are done. -/
def failWrites (c : Connection) (fault : WriteFault) : Connection :=
  if c.hasEnded then c else { c with writeFault := some fault }

/-- A shutdown is asked for. -/
def cancel (c : Connection) : Connection :=
  if c.hasEnded then c else c.finish .finished

/-- Time passes. A handshake still open when its time is up fails. -/
def elapse (c : Connection) (d : Duration) : Connection :=
  if c.hasEnded then c
  else
    let c := { c with elapsed := ⟨c.elapsed.micros + d.micros⟩ }
    if c.session.phase = .handshake && c.services.handshake.timeout.micros ≤ c.elapsed.micros then
      { c with metrics := c.metrics.handshakeFailed }.finish (.failed .timeout)
    else c

end Connection

end PacketWire
