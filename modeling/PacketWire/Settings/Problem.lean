import PacketWire.Settings.Basic
import PacketWire.Text.SocketAddress

/-!
# Problems of settings

Settings may hold any value; a server starts only on settings without a problem. Problems are
listed in the order of the settings, at most one for each.

* `HandshakeSettings.problems_eq_nil_iff`: the settings of a handshake that a server accepts.
-/

namespace PacketWire

/-- What is wrong with a setting (`Problems`). -/
inductive Problem where
  | addressEmpty
  | addressInvalid (address : String)
  | connectionsZero
  | connectionsHigh (n : Nat)
  | frameSizeSmall (bytes : Nat)
  | frameSizeLarge (bytes : Nat)
  | shutdownShort (ms : Nat)
  | shutdownLong (ms : Nat)
  | toleranceZero
  | toleranceLarge (ms : Nat)
  | attemptsZero
  | attemptsHigh (n : Nat)
  | timeoutShort (ms : Nat)
  | timeoutLong (ms : Nat)
  | nameEmpty
  | nameLong (bytes : Nat)
  deriving DecidableEq, Repr

/-- A range of accepted numbers, both ends included. -/
structure Bounds where
  low : Nat
  high : Nat
  deriving DecidableEq, Repr

namespace Bounds

/-- Bytes in a packet. -/
def frameSize : Bounds := ⟨16, 16 * 1024 * 1024⟩

/-- Milliseconds that a shutdown waits. -/
def shutdown : Bounds := ⟨100, 60000⟩

/-- Milliseconds that clocks may disagree. -/
def tolerance : Bounds := ⟨1, 1000⟩

/-- Milliseconds that a handshake may take. -/
def timeout : Bounds := ⟨100, 120000⟩

/-- Sessions that may be live at once. -/
def connections : Bounds := ⟨1, 100000⟩

/-- Replies to a handshake. -/
def attempts : Bounds := ⟨1, 64⟩

/-- Bytes in a name. -/
def name : Bounds := ⟨1, 64⟩

/-- The problem of a number outside of a range (`bounded`). -/
def problem? (bounds : Bounds) (below above : Nat → Problem) (n : Nat) : Option Problem :=
  if n < bounds.low then some (below n)
  else if bounds.high < n then some (above n)
  else none

theorem problem?_eq_none_iff {bounds : Bounds} {below above : Nat → Problem} {n : Nat} :
    bounds.problem? below above n = none ↔ bounds.low ≤ n ∧ n ≤ bounds.high := by
  unfold problem?
  split
  · simp; omega
  · split <;> simp <;> omega

end Bounds

/-- The problem in words. -/
def Problem.message : Problem → String
  | addressEmpty => "Server address cannot be empty"
  | addressInvalid address => s!"Invalid server address '{address}', expected ip:port"
  | connectionsZero => "Max connections must be greater than 0"
  | connectionsHigh n => s!"Max connections very high: {n}"
  | frameSizeSmall n =>
    s!"Max frame size too small: {n} bytes (minimum {Bounds.frameSize.low} bytes)"
  | frameSizeLarge n =>
    s!"Max frame size too large: {n} bytes (maximum {Bounds.frameSize.high} bytes)"
  | shutdownShort ms => s!"Shutdown timeout too short: {ms}ms (minimum {Bounds.shutdown.low}ms)"
  | shutdownLong ms => s!"Shutdown timeout too long: {ms}ms (maximum {Bounds.shutdown.high}ms)"
  | toleranceZero => "Handshake tolerance must be greater than 0"
  | toleranceLarge ms =>
    s!"Handshake tolerance too large: {ms} ms (maximum {Bounds.tolerance.high} ms)"
  | attemptsZero => "Handshake attempts must be greater than 0"
  | attemptsHigh n => s!"Handshake attempts too high: {n} (maximum {Bounds.attempts.high})"
  | timeoutShort ms => s!"Handshake timeout too short: {ms}ms (minimum {Bounds.timeout.low}ms)"
  | timeoutLong ms => s!"Handshake timeout too long: {ms}ms (maximum {Bounds.timeout.high}ms)"
  | nameEmpty => "Application name cannot be empty"
  | nameLong n => s!"Application name too long: {n} characters (maximum {Bounds.name.high})"

/-- The problem of a listening address. -/
def ServerSettings.addressProblem? (address : String) : Option Problem :=
  if address.isEmpty then some .addressEmpty
  else if (SocketAddress.parse? address).isNone then some (.addressInvalid address)
  else none

def ServerSettings.problems (settings : ServerSettings) : List Problem :=
  [addressProblem? settings.address,
    Bounds.connections.problem? (fun _ => .connectionsZero) .connectionsHigh
      settings.maxConnections,
    Bounds.frameSize.problem? .frameSizeSmall .frameSizeLarge settings.maxFrameSize,
    Bounds.shutdown.problem? .shutdownShort .shutdownLong
      settings.shutdownTimeout.millis].filterMap id

def HandshakeSettings.problems (settings : HandshakeSettings) : List Problem :=
  [Bounds.tolerance.problem? (fun _ => .toleranceZero) .toleranceLarge
      settings.toleranceMs.toNat,
    Bounds.attempts.problem? (fun _ => .attemptsZero) .attemptsHigh settings.maxAttempts.toNat,
    Bounds.timeout.problem? .timeoutShort .timeoutLong settings.timeout.millis].filterMap id

theorem HandshakeSettings.problems_eq_nil_iff {settings : HandshakeSettings} :
    settings.problems = [] ↔
      (1 ≤ settings.toleranceMs.toNat ∧ settings.toleranceMs.toNat ≤ 1000) ∧
      (1 ≤ settings.maxAttempts.toNat ∧ settings.maxAttempts.toNat ≤ 64) ∧
      (100 ≤ settings.timeout.millis ∧ settings.timeout.millis ≤ 120000) := by
  simp [problems, List.filterMap_eq_nil_iff, Bounds.problem?_eq_none_iff, Bounds.tolerance,
    Bounds.attempts, Bounds.timeout]

def LoggingSettings.problems (settings : LoggingSettings) : List Problem :=
  (Bounds.name.problem? (fun _ => .nameEmpty) .nameLong
    (Utf8.length settings.appName)).toList

namespace Settings

/-- Every problem, none where a server can start (`validate`). -/
def problems (settings : Settings) : List Problem :=
  settings.server.problems ++ settings.handshake.problems ++ settings.logging.problems

/-- Refuses settings with a problem (`validate_strict`). -/
def check (settings : Settings) : Except ProtocolError Unit :=
  if settings.problems.isEmpty then .ok ()
  else
    let messages := settings.problems.map Problem.message
    .error (.config ("Configuration validation failed: " ++ "; ".intercalate messages))

end Settings

end PacketWire
