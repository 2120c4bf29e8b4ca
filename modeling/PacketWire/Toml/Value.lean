import PacketWire.Value.Fields

/-!
# Values of a configuration file

The values that TOML has. Where a table came from is kept with it, because that decides whether
later lines may add to it.
-/

namespace PacketWire.Toml

/-- How a table came into being. -/
inductive Origin where
  /-- By a header of its own, or as the whole file. -/
  | header
  /-- In braces, all at once. -/
  | braces
  /-- On the way to a table below it, which a header names. -/
  | implied
  /-- On the way to a value below it, which a dotted key names. -/
  | dotted
  deriving DecidableEq, Repr

/-- A value. Floats, dates and times are kept as they were written. -/
inductive Value where
  | text (s : String)
  | integer (n : Int)
  | float (written : String)
  | boolean (b : Bool)
  | dateTime (written : String)
  | array (items : List Value)
  | table (origin : Origin) (entries : Fields Value)
  /-- Tables under one name, each with a header of its own. -/
  | tables (items : List (Fields Value))

/-- The values of a table, by key. -/
abbrev Table := Fields Value

end PacketWire.Toml
