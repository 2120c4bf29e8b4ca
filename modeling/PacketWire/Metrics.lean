/-!
# Counters

What a server counts. Counters are 64-bit and wrap; the number of active connections stops at zero
instead.
-/

namespace PacketWire

/-- The counters of a server. -/
structure Metrics where
  connectionsTotal : UInt64 := 0
  connectionsActive : UInt64 := 0
  connectionsRejected : UInt64 := 0
  handshakesTotal : UInt64 := 0
  handshakesSuccess : UInt64 := 0
  handshakesFailed : UInt64 := 0
  packetsSent : UInt64 := 0
  packetsReceived : UInt64 := 0
  bytesSent : UInt64 := 0
  bytesReceived : UInt64 := 0
  unknownHeaders : UInt64 := 0
  protocolErrors : UInt64 := 0
  handlerFailures : UInt64 := 0
  deriving DecidableEq, Repr

namespace Metrics

/-- The counters by name (`snapshot`). -/
def counters (m : Metrics) : List (String × UInt64) :=
  [("connections_total", m.connectionsTotal),
    ("connections_active", m.connectionsActive),
    ("connections_rejected", m.connectionsRejected),
    ("handshakes_total", m.handshakesTotal),
    ("handshakes_success", m.handshakesSuccess),
    ("handshakes_failed", m.handshakesFailed),
    ("packets_sent", m.packetsSent),
    ("packets_received", m.packetsReceived),
    ("bytes_sent", m.bytesSent),
    ("bytes_received", m.bytesReceived),
    ("unknown_headers", m.unknownHeaders),
    ("protocol_errors", m.protocolErrors),
    ("handler_failures", m.handlerFailures)]

/-- Counts a connection. -/
def countConnection (m : Metrics) : Metrics :=
  { m with connectionsTotal := m.connectionsTotal + 1 }

/-- Counts an active connection. -/
def countActive (m : Metrics) : Metrics :=
  { m with connectionsActive := m.connectionsActive + 1 }

/-- A connection was let in (`connection_established`). -/
def connectionEstablished (m : Metrics) : Metrics := m.countConnection.countActive

/-- A connection is gone (`connection_closed`); without one to go, none goes. -/
def connectionClosed (m : Metrics) : Metrics :=
  if m.connectionsActive = 0 then m
  else { m with connectionsActive := m.connectionsActive - 1 }

/-- A connection was turned away (`connection_rejected`). -/
def connectionRejected (m : Metrics) : Metrics :=
  { m with connectionsRejected := m.connectionsRejected + 1 }

/-- A handshake was opened (`handshake_attempt`). -/
def handshakeAttempt (m : Metrics) : Metrics :=
  { m with handshakesTotal := m.handshakesTotal + 1 }

def handshakeSuccess (m : Metrics) : Metrics :=
  { m with handshakesSuccess := m.handshakesSuccess + 1 }

def handshakeFailed (m : Metrics) : Metrics :=
  { m with handshakesFailed := m.handshakesFailed + 1 }

/-- A packet of so many bytes was handed to the stream (`packet_sent`). -/
def packetSent (m : Metrics) (bytes : UInt64) : Metrics :=
  { m with packetsSent := m.packetsSent + 1, bytesSent := m.bytesSent + bytes }

/-- A packet of so many bytes came in (`packet_received`). -/
def packetReceived (m : Metrics) (bytes : UInt64) : Metrics :=
  { m with packetsReceived := m.packetsReceived + 1, bytesReceived := m.bytesReceived + bytes }

/-- A packet had a header or sub-header that is not registered (`unknown_header`). -/
def unknownHeader (m : Metrics) : Metrics :=
  { m with unknownHeaders := m.unknownHeaders + 1 }

/-- A connection ended by a fault (`protocol_error`). -/
def protocolError (m : Metrics) : Metrics :=
  { m with protocolErrors := m.protocolErrors + 1 }

/-- A handler failed or panicked (`handler_failure`). -/
def handlerFailure (m : Metrics) : Metrics :=
  { m with handlerFailures := m.handlerFailures + 1 }

end Metrics

end PacketWire
