import PacketWire.Handshake
import PacketWire.Registry
import PacketWire.Text.SocketAddress

/-!
# Sessions

A session is what the server keeps of one connection: its phase, its handshake, and the packets
waiting to be written. Sending only queues a packet; the connection writes the queue when the
packet at hand has been dealt with.
-/

namespace PacketWire

/-- The number of a session. -/
structure SessionId where
  number : Nat
  deriving DecidableEq, Repr

def SessionId.render (id : SessionId) : String := s!"#{id.number}"

/-- The state of one connection. -/
structure Session where
  id : SessionId
  peer : Option SocketAddress := none
  registry : Registry
  phase : Phase := .handshake
  handshake : Handshake.State := {}
  /-- Whether the connection is to end once the queue is written. -/
  isClosing : Bool := false
  /-- The packets waiting to be written, oldest first. -/
  outbox : List Bytes := []

namespace Session

/-- The number of packets waiting to be written (`pending`). -/
def pending (session : Session) : Nat := session.outbox.length

/-- Queues a packet given as a record (`send_record`). -/
def sendRecord (session : Session) (key : Key) (record : Record) :
    Except ProtocolError Unit × Session :=
  match session.registry.encodeRecord .outgoing key record with
  | .ok bytes => (.ok (), { session with outbox := session.outbox ++ [bytes] })
  | .error fault => (.error fault, session)

/-- Queues a packet with a key of its own (`send`). -/
def send {α : Type} [TypedPacket α] (session : Session) (packet : α) :
    Except ProtocolError Unit × Session :=
  session.sendRecord (TypedPacket.key α) (RecordForm.toRecord packet)

/-- Moves on to a phase and tells the client (`set_phase`); the current phase is no move. -/
def setPhase (session : Session) (next : Phase) : Except ProtocolError Unit × Session :=
  if next = session.phase then (.ok (), session)
  else if session.phase.canAdvanceTo next then
    { session with phase := next }.send (PhaseChange.mk next.code)
  else (.error (.phaseRegression session.phase next), session)

/-- Asks the connection to end (`close`). -/
def close (session : Session) : Session := { session with isClosing := true }

/-- Takes every packet that waits to be written, oldest first (`drain_outbox`). -/
def drain (session : Session) : List Bytes × Session :=
  (session.outbox, { session with outbox := [] })

/-- Changes the handshake (`handshake_mut`). -/
def onHandshake (session : Session) (change : Handshake.State → Handshake.State) : Session :=
  { session with handshake := change session.handshake }

/-- Opens the handshake: the packet to send. -/
def startHandshake (session : Session) (nonce now : UInt32) :
    Except ProtocolError Handshake × Session :=
  match session.handshake.start nonce now with
  | (.ok opening, handshake) => (.ok opening, { session with handshake })
  | (.error fault, handshake) => (.error (.handshake fault), { session with handshake })

/-- Judges a reply to the handshake. -/
def verifyHandshake (session : Session) (reply : Handshake) (now : UInt32)
    (settings : HandshakeSettings) : Except ProtocolError Handshake.Outcome × Session :=
  match session.handshake.verify reply now settings with
  | (.ok outcome, handshake) => (.ok outcome, { session with handshake })
  | (.error fault, handshake) => (.error (.handshake fault), { session with handshake })

end Session

end PacketWire
