/-!
# Bytes in hexadecimal
-/

namespace PacketWire.Hex

/-- The upper-case digit for a number below sixteen. -/
def digit (n : Nat) : Char :=
  if n < 10 then Char.ofNat (48 + n) else Char.ofNat (55 + n)

/-- A byte as `0x` and two upper-case digits. -/
def byte (b : UInt8) : String :=
  String.ofList ['0', 'x', digit (b.toNat / 16), digit (b.toNat % 16)]

end PacketWire.Hex
