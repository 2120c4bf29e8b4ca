import PacketWire.Server.Roster
import PacketWire.Settings.Problem

/-!
# Servers

A server takes in connections at its address and runs each of them on its own, until it is shut
down; then it takes in no more, asks every connection to end and waits until they have. Connections
share the counters, the clock and nothing else.

Here a connection is moved by what its client does, and whatever its session then has to do is done
before the next client does something.
-/

namespace PacketWire

/-- What the connections of a server with these settings share (`with_config`). -/
def Services.ofSettings (registry : Registry) (dispatcher : Dispatcher) (settings : Settings) :
    Services where
  registry := registry
  dispatcher := dispatcher
  handshake := settings.handshake
  mode := settings.server.mode
  maxFrameSize := settings.server.maxFrameSize

/-- A server and the connections it runs. -/
structure Server where
  settings : Settings
  services : Services
  clock : Clock
  roster : Roster
  /-- The connections whose tasks are running, oldest first. -/
  connections : List (SessionId × Connection) := []
  /-- The readings taken from the clock so far. -/
  readings : Nat := 0
  /-- Whether a shutdown was asked for. -/
  isStopping : Bool := false

namespace Server

def create (settings : Settings) (registry : Registry) (dispatcher : Dispatcher) (clock : Clock) :
    Server where
  settings := settings
  services := .ofSettings registry dispatcher settings
  clock := clock
  roster := { limit := settings.server.maxConnections }

def metrics (server : Server) : Metrics := server.roster.metrics

/-- The number of live sessions (`live_sessions`). -/
def live (server : Server) : Nat := server.roster.live.length

/-- The connection of a session whose task is running. -/
def connection? (server : Server) (id : SessionId) : Option Connection :=
  server.connections.lookup id

/-- Takes a connection back after it was moved: one that has ended is let go. -/
def settle (server : Server) (id : SessionId) (connection : Connection) : Server :=
  let before := server.connections.takeWhile (·.1 ≠ id)
  let behind := (server.connections.dropWhile (·.1 ≠ id)).drop 1
  let roster := { server.roster with metrics := connection.metrics }
  let server := { server with readings := connection.readings }
  match connection.outcome with
  | none => { server with roster, connections := before ++ (id, connection) :: behind }
  | some outcome =>
    { server with roster := roster.letGo id outcome, connections := before ++ behind }

/-- Moves the connection of a session, where its task is running. -/
def move (server : Server) (id : SessionId) (event : Connection → Connection) : Server :=
  match server.connection? id with
  | none => server
  | some connection =>
    server.settle id
      (event { connection with metrics := server.metrics, readings := server.readings })

/-- A client connects (`admit`): the session it is let in as, if it is. -/
def connect (server : Server) (peer : SocketAddress) (nonce : UInt32) :
    Option SessionId × Server :=
  if server.isStopping then (none, server)
  else
    match server.roster.takeIn peer with
    | (none, roster) => (none, { server with roster })
    | (some id, roster) =>
      let connection := Connection.start server.services id (some peer) nonce server.clock
        roster.metrics server.readings
      (some id, { server with roster }.settle id connection)

/-- A client sends bytes. -/
def receive (server : Server) (id : SessionId) (bytes : Bytes) : Server :=
  server.move id (·.receive server.clock bytes)

/-- A client sends no more. -/
def endStream (server : Server) (id : SessionId) : Server := server.move id (·.endStream)

/-- Time passes. -/
def elapse (server : Server) (d : Duration) : Server :=
  (server.connections.map (·.1)).foldl (fun server id => server.move id (·.elapse d)) server

/-- A shutdown is asked for (`shutdown`): every connection ends. -/
def shutdown (server : Server) : Server :=
  let asked := { server with isStopping := true }
  (asked.connections.map (·.1)).foldl (fun server id => server.move id (·.cancel)) asked

/-- Starts a server, which its settings may forbid (`run`). -/
def start (server : Server) : Except ProtocolError Server := do
  server.settings.check
  return server

end Server

end PacketWire
