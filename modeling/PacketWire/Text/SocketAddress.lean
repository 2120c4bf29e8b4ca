import PacketWire.Text.Digit
import PacketWire.Text.Reader

/-!
# Socket addresses

An address and a port: `a.b.c.d:port`, or `[groups]:port` with eight groups of hexadecimal digits
between colons, one run of zero groups possibly left out, the last two groups possibly written as
four decimal bytes, and a zone possibly named by number behind a percent sign.

Decimal bytes have no superfluous leading zero; ports, zones and groups may have some, a group up
to four digits. An address is written with its longest run of at least two zero groups left out.
-/

namespace PacketWire

/-- An address and a port. -/
inductive SocketAddress where
  | v4 (octets : List UInt8) (port : UInt16)
  | v6 (groups : List UInt16) (zone : UInt32) (port : UInt16)
  deriving DecidableEq, Repr

namespace SocketAddress

/-! ## Numbers -/

/-- Reads all digits at the front: a number below a limit, of at most some digits. -/
def number (base limit : Nat) (maxDigits : Option Nat) (leadingZero : Bool) : Reader Nat := do
  let digits ← Reader.takeWhile (Digit.isDigit base)
  let value := Digit.number base digits
  guard !digits.isEmpty
  guard !maxDigits.any (· < digits.length)
  guard (leadingZero || digits.head? != some '0' || digits.length == 1)
  guard (value < limit)
  return value

/-- Reads with a separator in front, unless this is the first of a row. -/
def separated {α : Type} (separator : Char) (index : Nat) (reader : Reader α) : Reader α := do
  if index ≠ 0 then Reader.char separator
  reader

/-! ## Addresses -/

/-- Reads a decimal byte. -/
def octet : Reader UInt8 := UInt8.ofNat <$> number 10 256 (some 3) false

/-- Reads four decimal bytes between dots. -/
def octets : Reader (List UInt8) := do
  let a ← octet
  let b ← separated '.' 1 octet
  let c ← separated '.' 1 octet
  let d ← separated '.' 1 octet
  return [a, b, c, d]

/-- Two decimal bytes as a group. -/
def group (high low : UInt8) : UInt16 := UInt16.ofNat (high.toNat * 256 + low.toNat)

/-- Reads up to `room` groups, of which `index` have been read: the groups, whether they end in
decimal bytes, and the rest. -/
def groups : Nat → Nat → List Char → List UInt16 × Bool × List Char
  | _, 0, text => ([], false, text)
  | index, room + 1, text =>
    let decimal := if room = 0 then none else (separated ':' index octets).run text
    match decimal with
    | some ([a, b, c, d], rest) => ([group a b, group c d], true, rest)
    | _ =>
      match (separated ':' index (number 16 65536 (some 4) true)).run text with
      | some (n, rest) =>
        let (more, decimal, rest) := groups (index + 1) room rest
        (UInt16.ofNat n :: more, decimal, rest)
      | none => ([], false, text)

/-- Reads eight groups, or fewer around a run of zeros that is left out. -/
def ipv6 : Reader (List UInt16) := fun text =>
  let (head, decimal, rest) := groups 0 8 text
  if head.length = 8 then some (head, rest)
  else if decimal then none
  else do
    let ((), rest) ← (Reader.literal "::").run rest
    let (tail, _, rest) := groups 0 (7 - head.length) rest
    return (head ++ List.replicate (8 - head.length - tail.length) 0 ++ tail, rest)

/-- Reads a colon and a port. -/
def port : Reader UInt16 := do
  Reader.char ':'
  return UInt16.ofNat (← number 10 65536 none true)

/-- Reads a zone behind a percent sign, zero where there is none. -/
def zone : Reader UInt32 := do
  let named ← Reader.optional (Reader.char '%' *> number 10 0x1_0000_0000 none true)
  return UInt32.ofNat (named.getD 0)

/-- Reads an address of four bytes and a port. -/
def readV4 : Reader SocketAddress := do
  let octets ← octets
  return .v4 octets (← port)

/-- Reads an address of eight groups in brackets and a port. -/
def readV6 : Reader SocketAddress := do
  Reader.char '['
  let groups ← ipv6
  let zone ← zone
  Reader.char ']'
  return .v6 groups zone (← port)

/-- The address that a text stands for, all of it. -/
def parse? (s : String) : Option SocketAddress := (readV4 <|> readV6).readAll? s

/-! ## Writing -/

/-- The lower-case hexadecimal digits of a number, without leading zeros. -/
def hexDigits (n : Nat) : String := String.ofList (Nat.toDigits 16 n)

/-- Groups between colons. -/
def renderGroups (groups : List UInt16) : String :=
  ":".intercalate (groups.map fun g => hexDigits g.toNat)

/-- The zero groups that the list begins with. -/
def zeroRun (groups : List UInt16) : Nat := (groups.takeWhile (· == 0)).length

/-- Where the longest run of zero groups begins, and its length; the first of equal ones. -/
def longestZeroRun (groups : List UInt16) : Nat × Nat :=
  (List.range groups.length).foldl (fun best i =>
    let run := zeroRun (groups.drop i)
    if best.2 < run then (i, run) else best) (0, 0)

/-- Four bytes between dots. -/
def renderOctets (octets : List UInt8) : String :=
  ".".intercalate (octets.map fun b => toString b.toNat)

/-- Eight groups; those that stand for four bytes are written so. -/
def renderIpv6 (groups : List UInt16) : String :=
  match groups with
  | [0, 0, 0, 0, 0, 0xFFFF, g, h] =>
    let bytes := [g, h].flatMap fun x => [UInt8.ofNat (x.toNat / 256), UInt8.ofNat x.toNat]
    "::ffff:" ++ renderOctets bytes
  | _ =>
    let (start, run) := longestZeroRun groups
    if 1 < run then
      renderGroups (groups.take start) ++ "::" ++ renderGroups (groups.drop (start + run))
    else renderGroups groups

/-- The address in writing. -/
def render : SocketAddress → String
  | .v4 octets port => renderOctets octets ++ ":" ++ toString port.toNat
  | .v6 groups zone port =>
    let scope := if zone = 0 then "" else "%" ++ toString zone.toNat
    "[" ++ renderIpv6 groups ++ scope ++ "]:" ++ toString port.toNat

end SocketAddress

end PacketWire
