import PacketWire.Settings.Basic
import PacketWire.Text.Blank

/-!
# Settings from the environment

Some settings may be given by environment variables, one each. A variable whose bytes are no text
counts as missing; blanks around its value do not matter. The first variable that cannot be read is
a fault.
-/

namespace PacketWire

/-- The values of variables, as bytes. -/
abbrev Environment := String → Option Bytes

namespace Environment

/-- The text of a variable. -/
def text? (env : Environment) (name : String) : Option String := (env name).bind Utf8.decode?

/-- Reads a variable, where there is one (`env_var`). -/
def read {α : Type} (env : Environment) (name : String) (parse : String → Except String α) :
    Except ProtocolError (Option α) :=
  match env.text? name with
  | none => .ok none
  | some raw =>
    match parse (Text.trim raw) with
    | .ok value => .ok (some value)
    | .error reason => .error (.config s!"Invalid {name} '{raw}': {reason}")

/-- Reads a variable that is a number below a limit. -/
def readNumber (env : Environment) (name : String) (limit : Nat) :
    Except ProtocolError (Option Nat) :=
  env.read name fun s => (Numeral.parse limit s).mapError Numeral.Error.message

end Environment

/-- The default settings, apart from those that the environment gives (`from_env`). -/
def Settings.ofEnvironment (env : Environment) : Except ProtocolError Settings := do
  let defaults : Settings := {}
  let address ← env.read "GAMEWIRE_SERVER_ADDRESS" .ok
  let mode ← env.read "GAMEWIRE_SERVER_MODE" ServerMode.parse
  let maxConnections ← env.readNumber "GAMEWIRE_MAX_CONNECTIONS" Size.limit
  let tolerance ← env.readNumber "GAMEWIRE_HANDSHAKE_TOLERANCE_MS" Size.wordLimit
  let timeout ← env.readNumber "GAMEWIRE_HANDSHAKE_TIMEOUT_MS" Size.limit
  let server := { defaults.server with
    address := address.getD defaults.server.address
    mode := mode.getD defaults.server.mode
    maxConnections := maxConnections.getD defaults.server.maxConnections }
  let handshake := { defaults.handshake with
    toleranceMs := (tolerance.map UInt32.ofNat).getD defaults.handshake.toleranceMs
    timeout := (timeout.map Duration.ofMillis).getD defaults.handshake.timeout }
  return { defaults with server, handshake }

end PacketWire
