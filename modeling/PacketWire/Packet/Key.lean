import PacketWire.Text.Hex

/-!
# Dispatch keys

A packet is known by its header byte, or by its header and sub-header bytes.
-/

namespace PacketWire

/-- A header byte and, in a family of packets that share it, the sub-header byte (`PacketKey`). -/
structure Key where
  header : UInt8
  subHeader : Option UInt8 := none
  deriving DecidableEq, Repr

namespace Key

/-- The key as one number (`code`): the header, or the header above the sub-header. -/
def code (key : Key) : Nat :=
  match key.subHeader with
  | none => key.header.toNat
  | some sub => key.header.toNat * 256 + sub.toNat

/-- The key in writing (`fmt`). -/
def render (key : Key) : String :=
  match key.subHeader with
  | none => Hex.byte key.header
  | some sub => Hex.byte key.header ++ "/" ++ Hex.byte sub

/-- The key with the names of its parts. -/
def describe (key : Key) : String :=
  let sub := match key.subHeader with
    | none => "None"
    | some sub => s!"Some({sub.toNat})"
  s!"PacketKey \x7b header: {key.header.toNat}, sub_header: {sub} \x7d"

/-- The bytes that begin every packet of the key. -/
def bytes (key : Key) : List UInt8 := key.header :: key.subHeader.toList

/-- The place of the key in listings: by header, the key without sub-header first. -/
def rank (key : Key) : Nat :=
  key.header.toNat * 257 + (key.subHeader.map (·.toNat + 1)).getD 0

end Key

end PacketWire
