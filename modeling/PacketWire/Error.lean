import PacketWire.Codec.Error
import PacketWire.Phase
import PacketWire.Schema.Error
import PacketWire.Text.Hex

/-!
# Faults of a connection

Why a connection ends other than by agreement, and the wording of each fault. A fault concerns one
connection only.
-/

namespace PacketWire

/-- Why a handshake fails. -/
inductive HandshakeError where
  | nonceMismatch
  | negativeDelta
  | notConverged
  | notStarted
  | alreadyStarted
  deriving DecidableEq, Repr

/-- The fault in words. -/
def HandshakeError.message : HandshakeError → String
  | nonceMismatch => "Handshake nonce mismatch"
  | negativeDelta => "Handshake clock delta went negative"
  | notConverged => "Handshake did not converge within the attempt limit"
  | notStarted => "Handshake reply received before the handshake started"
  | alreadyStarted => "Handshake already in progress"

/-- A fault of the stream beneath a connection. -/
inductive StreamError where
  | brokenPipe
  | connectionReset
  | connectionAborted
  | permissionDenied
  deriving DecidableEq, Repr

/-- Every fault of a stream. -/
def StreamError.all : List StreamError :=
  [brokenPipe, connectionReset, connectionAborted, permissionDenied]

/-- The fault in words. -/
def StreamError.message : StreamError → String
  | brokenPipe => "broken pipe"
  | connectionReset => "connection reset"
  | connectionAborted => "connection aborted"
  | permissionDenied => "permission denied"

/-- A fault that ends a connection, or a configuration that cannot be used. -/
inductive ProtocolError where
  | stream (fault : StreamError)
  | schema (fault : SchemaError)
  | codec (fault : CodecError)
  | unknownHeader (header : UInt8)
  | unknownSubHeader (header subHeader : UInt8)
  | oversizedFrame (length : Nat)
  | connectionClosed
  | truncated
  | handshake (fault : HandshakeError)
  | unexpectedPacket (packet : String) (phase : Phase)
  | phaseRegression (current next : Phase)
  | handlerFailed (packet reason : String)
  | sessionAborted (reason : String)
  | timeout
  | config (reason : String)
  deriving DecidableEq, Repr

/-- The fault in words. -/
def ProtocolError.message : ProtocolError → String
  | stream fault => "I/O error: " ++ fault.message
  | schema fault => "Schema error: " ++ fault.message
  | codec fault => "Codec error: " ++ fault.message
  | unknownHeader header => "Unknown packet header " ++ Hex.byte header
  | unknownSubHeader header sub =>
    "Unknown sub-header " ++ Hex.byte sub ++ " for header " ++ Hex.byte header
  | oversizedFrame length => s!"Frame of {length} bytes exceeds the configured maximum"
  | connectionClosed => "Connection closed"
  | truncated => "Truncated frame: Peer closed the stream in the middle of a frame"
  | handshake fault => "Handshake failed: " ++ fault.message
  | unexpectedPacket packet phase =>
    "Unexpected packet '" ++ packet ++ "' in phase " ++ phase.name
  | phaseRegression current next =>
    "Phase cannot move from " ++ current.name ++ " back to " ++ next.name
  | handlerFailed packet reason => s!"Handler for '{packet}' failed: {reason}"
  | sessionAborted reason => "Session task aborted: " ++ reason
  | timeout => "Timeout occurred"
  | config reason => "Configuration error: " ++ reason

/-- The fault of a value or buffer, as a fault of the connection. -/
def ProtocolError.ofCodec {α : Type} : Except CodecError α → Except ProtocolError α
  | .ok value => .ok value
  | .error fault => .error (.codec fault)

end PacketWire
