/-!
# Phases of a connection

A connection starts in the handshake and moves forward through the phases of a game server, or
straight to the single phase of an authentication server, from which nothing leads on.
-/

namespace PacketWire

/-- A state of the protocol. -/
inductive Phase where
  | handshake
  | login
  | select
  | loading
  | game
  | auth
  deriving DecidableEq, Repr

namespace Phase

/-- Every phase. -/
def all : List Phase := [handshake, login, select, loading, game, auth]

/-- The number that announces the phase to the client (`code`). -/
def code : Phase → UInt8
  | handshake => 1
  | login => 2
  | select => 3
  | loading => 4
  | game => 5
  | auth => 10

def name : Phase → String
  | handshake => "handshake"
  | login => "login"
  | select => "select"
  | loading => "loading"
  | game => "game"
  | auth => "auth"

/-- The phase that a number announces (`from_code`). -/
def ofCode? (code : UInt8) : Option Phase := all.find? (·.code == code)

/-- Whether a session may move from one phase to another (`can_advance_to`): forward along the game
phases, skipping at will, or from the handshake to authentication. -/
def canAdvanceTo : Phase → Phase → Bool
  | handshake, auth => true
  | auth, _ => false
  | _, auth => false
  | current, next => current.code < next.code

end Phase

/-- What a server is for, which decides where the handshake leads. -/
inductive ServerMode where
  | game
  | auth
  deriving DecidableEq, Repr

namespace ServerMode

def name : ServerMode → String
  | game => "game"
  | auth => "auth"

def phaseAfterHandshake : ServerMode → Phase
  | game => .login
  | auth => .auth

/-- The mode of a name that is written exactly so. -/
def ofName? (name : String) : Option ServerMode :=
  [game, auth].find? (·.name == name)

/-- The mode of a name in letters of either case, or what is wrong with it (`from_str`). -/
def parse (s : String) : Except String ServerMode :=
  let lower := s.map Char.toLower
  match ofName? lower with
  | some mode => .ok mode
  | none => .error s!"expected 'game' or 'auth', got '{lower}'"

end ServerMode

end PacketWire
