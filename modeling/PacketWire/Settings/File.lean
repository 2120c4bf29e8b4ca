import PacketWire.Settings.Basic
import PacketWire.Toml.Document

/-!
# Settings in a file

Settings are kept as TOML, a section for each group. A section that is missing has its defaults; a
section that is there names every setting but the mode, and what else it says is ignored. A section
may also be an array of its settings, in their order. Durations are whole milliseconds.

* `ofToml` reads settings, `render?` writes them.
-/

namespace PacketWire

/-- Why a file cannot be read. -/
inductive FileError where
  | notFound
  deriving DecidableEq, Repr

/-- The fault in words. -/
def FileError.message : FileError → String
  | notFound => "No such file or directory (os error 2)"

namespace Settings

/-! ## Reading -/

/-- What a section says about the setting of a name, which has that place among its settings. -/
abbrev Lookup := String → Nat → Option Toml.Value

/-- Reads a section. -/
def lookup? : Toml.Value → Option Lookup
  | .table _ entries => some fun name _ => entries.get? name
  | .array items => some fun _ place => items[place]?
  | _ => none

def text? : Toml.Value → Option String
  | .text s => some s
  | _ => none

def boolean? : Toml.Value → Option Bool
  | .boolean b => some b
  | _ => none

/-- A number below a limit. -/
def number? (limit : Nat) : Toml.Value → Option Nat
  | .integer n => if 0 ≤ n ∧ n < limit then some n.toNat else none
  | _ => none

def word? (value : Toml.Value) : Option UInt32 := (number? Size.wordLimit value).map UInt32.ofNat

def size? (value : Toml.Value) : Option Nat := number? Size.limit value

def duration? (value : Toml.Value) : Option Duration := (number? Size.limit value).map Duration.ofMillis

/-- Whether a value holds nothing. -/
def isNothing : Toml.Value → Bool
  | .table _ entries => entries.isEmpty
  | .array items => items.isEmpty
  | _ => false

/-- A mode: its name, or its name as the only key of a table, above nothing. -/
def mode? : Toml.Value → Option ServerMode
  | .text name => ServerMode.ofName? name
  | .table _ ⟨[(name, content)]⟩ => if isNothing content then ServerMode.ofName? name else none
  | _ => none

def level? (value : Toml.Value) : Option LogLevel := (text? value).bind LogLevel.parse?

def server? (value : Toml.Value) : Option ServerSettings := do
  let get ← lookup? value
  let address ← (get "address" 0).bind text?
  let mode ← match get "mode" 1 with
    | none => some ServerMode.game
    | some value => mode? value
  let maxConnections ← (get "max_connections" 2).bind size?
  let maxFrameSize ← (get "max_frame_size" 3).bind size?
  let shutdownTimeout ← (get "shutdown_timeout" 4).bind duration?
  return { address, mode, maxConnections, maxFrameSize, shutdownTimeout }

def handshake? (value : Toml.Value) : Option HandshakeSettings := do
  let get ← lookup? value
  let toleranceMs ← (get "tolerance_ms" 0).bind word?
  let maxAttempts ← (get "max_attempts" 1).bind word?
  let timeout ← (get "timeout" 2).bind duration?
  return { toleranceMs, maxAttempts, timeout }

def logging? (value : Toml.Value) : Option LoggingSettings := do
  let get ← lookup? value
  let appName ← (get "app_name" 0).bind text?
  let level ← (get "log_level" 1).bind level?
  let json ← (get "json_format" 2).bind boolean?
  return { appName, level, json }

/-- The settings of a section, or the defaults where it is missing. -/
def section? {α : Type} (default : α) (read : Toml.Value → Option α) (file : Toml.Table) (name : String) :
    Option α :=
  match file.get? name with
  | none => some default
  | some value => read value

/-- The settings that a table holds. -/
def ofTable? (file : Toml.Table) : Option Settings := do
  let server ← section? {} server? file "server"
  let handshake ← section? {} handshake? file "handshake"
  let logging ← section? {} logging? file "logging"
  return { server, handshake, logging }

/-- The settings that a text holds (`from_toml`). -/
def ofToml (s : String) : Except ProtocolError Settings :=
  match (Toml.parse? s).bind ofTable? with
  | some settings => .ok settings
  | none => .error (.config "Failed to parse TOML")

/-- The settings in a file (`from_file`). -/
def load (files : String → Except FileError String) (path : String) :
    Except ProtocolError Settings :=
  match files path with
  | .ok text => ofToml text
  | .error fault => .error (.config s!"Failed to read config file {path}: {fault.message}")

/-! ## Writing -/

/-- Writes a number, where the integers of a file reach that far. -/
def renderNumber? (n : Nat) : Option String :=
  if n < Toml.integerLimit then some (toString n) else none

/-- Writes a duration. -/
def renderDuration? (d : Duration) : Option String := renderNumber? d.millis

/-- Writes a section. -/
def renderSection (name : String) (entries : List (String × String)) : String :=
  s!"[{name}]\n" ++ String.join (entries.map fun (key, value) => s!"{key} = {value}\n")

def renderServer? (settings : ServerSettings) : Option String := do
  return renderSection "server"
    [("address", Toml.renderText settings.address),
      ("mode", Toml.renderText settings.mode.name),
      ("max_connections", ← renderNumber? settings.maxConnections),
      ("max_frame_size", ← renderNumber? settings.maxFrameSize),
      ("shutdown_timeout", ← renderDuration? settings.shutdownTimeout)]

def renderHandshake? (settings : HandshakeSettings) : Option String := do
  return renderSection "handshake"
    [("tolerance_ms", toString settings.toleranceMs.toNat),
      ("max_attempts", toString settings.maxAttempts.toNat),
      ("timeout", ← renderDuration? settings.timeout)]

def renderLogging (settings : LoggingSettings) : String :=
  renderSection "logging"
    [("app_name", Toml.renderText settings.appName),
      ("log_level", Toml.renderText settings.level.name),
      ("json_format", toString settings.json)]

/-- Writes settings, where their numbers fit into a file. -/
def render? (settings : Settings) : Option String := do
  let server ← renderServer? settings.server
  let handshake ← renderHandshake? settings.handshake
  return "\n".intercalate [server, handshake, renderLogging settings.logging]

/-- The text of a file that holds these settings (`save_to_file`). -/
def save (settings : Settings) : Except ProtocolError String :=
  match settings.render? with
  | some text => .ok text
  | none => .error (.config "Failed to serialize config")

end Settings

end PacketWire
