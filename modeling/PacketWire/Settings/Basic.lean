import PacketWire.Handshake
import PacketWire.Text.Numeral
import PacketWire.Text.Utf8

/-!
# Settings

What a server can be told: where it listens and how much it takes on, how it agrees on the clock,
and what it writes to its log.
-/

namespace PacketWire

/-- How much is written to the log. -/
inductive LogLevel where
  | error
  | warn
  | info
  | debug
  | trace
  deriving DecidableEq, Repr

namespace LogLevel

/-- Every level, the most urgent first. -/
def all : List LogLevel := [error, warn, info, debug, trace]

def name : LogLevel → String
  | error => "error"
  | warn => "warn"
  | info => "info"
  | debug => "debug"
  | trace => "trace"

/-- The level of a name in letters of either case, or of a number, the most urgent being one. -/
def parse? (s : String) : Option LogLevel :=
  let numbered := match Numeral.parse Size.limit s with
    | .ok n => if n = 0 then none else all[n - 1]?
    | .error _ => none
  numbered.or (all.find? (·.name == s.map Char.toLower))

end LogLevel

/-- How a server listens (`ServerConfig`). -/
structure ServerSettings where
  /-- The address and port to listen at. -/
  address : String := "127.0.0.1:13000"
  mode : ServerMode := .game
  /-- The sessions that may be live at once. -/
  maxConnections : Nat := 1000
  /-- The longest packet taken from a client, in bytes. -/
  maxFrameSize : Nat := 64 * 1024
  /-- How long a shutdown waits for sessions to end. -/
  shutdownTimeout : Duration := .ofMillis 10000
  deriving DecidableEq, Repr

/-- What is written to the log (`LoggingConfig`). -/
structure LoggingSettings where
  /-- The name that every line carries. -/
  appName : String := "gamewire"
  level : LogLevel := .info
  /-- Whether lines are written as JSON. -/
  json : Bool := false
  deriving DecidableEq, Repr

/-- All settings (`NetworkConfig`). -/
structure Settings where
  server : ServerSettings := {}
  handshake : HandshakeSettings := {}
  logging : LoggingSettings := {}
  deriving DecidableEq, Repr

end PacketWire
