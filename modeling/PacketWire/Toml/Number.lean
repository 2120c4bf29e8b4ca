import PacketWire.Text.Digit
import PacketWire.Text.Reader
import PacketWire.Toml.Value

/-!
# Numbers in a configuration file

Integers are decimal, with a sign or not and without leading zeros, or hexadecimal, octal or binary
behind `0x`, `0o` or `0b`; they take 64 bits. Floats have a fraction, an exponent or both, or are
`inf` or `nan`; one too large to be a finite number is refused. Between two digits may stand one
underscore.
-/

namespace PacketWire.Toml

/-- Reads a digit of a base. -/
def digit (base : Nat) : Reader Char := Reader.satisfy (Digit.isDigit base)

/-- Reads digits, with an underscore or nothing between two of them. -/
def digits (base : Nat) : Reader (List Char) := do
  let first ← digit base
  let rest ← Reader.many (Reader.optional (Reader.char '_') *> digit base)
  return first :: rest

/-- Reads a sign: whether it is a minus. -/
def sign : Reader Bool := do
  match ← Reader.optional (Reader.satisfy fun c => c == '+' || c == '-') with
  | some '-' => return true
  | _ => return false

/-- Reads decimal digits without leading zeros. -/
def decimalDigits : Reader (List Char) := do
  match ← Reader.optional (Reader.char '0') with
  | some () => return ['0']
  | none => digits 10

/-! ## Integers -/

/-- One more than the largest integer. -/
def integerLimit : Nat := 0x8000_0000_0000_0000

/-- The number with a sign, where it takes 64 bits. -/
def integerOf? (negative : Bool) (n : Nat) : Option Int :=
  if negative then if n ≤ integerLimit then some (-n) else none
  else if n < integerLimit then some n else none

/-- Reads an integer in another base. -/
def integerIn (opening : String) (base : Nat) : Reader Int := do
  Reader.literal opening
  let row ← digits base
  StateT.lift (integerOf? false (Digit.number base row))

/-- Reads an integer. -/
def integer : Reader Int :=
  integerIn "0x" 16 <|> integerIn "0o" 8 <|> integerIn "0b" 2 <|> do
    let negative ← sign
    let row ← decimalDigits
    StateT.lift (integerOf? negative (Digit.number 10 row))

/-! ## Floats -/

/-- Half the distance from the largest finite number to the next one above it: where numbers begin
that are too large. -/
def tooLargeFrom : Nat := (0x40_0000_0000_0000 - 1) <<< 970

/-- Whether `digits · 10 ^ exponent` is too large to be a finite number. A power of ten is computed
only where the number of digits leaves the answer open. -/
def isTooLarge (digits : Nat) (exponent : Int) : Bool :=
  let magnitude := (Nat.toDigits 10 digits).length + exponent
  if digits = 0 || magnitude < 300 then false
  else if 400 < magnitude then true
  else if 0 ≤ exponent then tooLargeFrom ≤ digits * Nat.pow 10 exponent.toNat
  else tooLargeFrom * Nat.pow 10 (-exponent).toNat ≤ digits

/-- Reads the digits behind the point. -/
def fraction : Reader (List Char) := Reader.char '.' *> digits 10

/-- Reads an exponent. -/
def exponent : Reader Int := do
  discard (Reader.satisfy fun c => c == 'e' || c == 'E')
  let negative ← sign
  let n := Digit.number 10 (← digits 10)
  return if negative then -n else n

/-- Reads a float in digits. -/
def floatDigits : Reader Unit := do
  let negative ← sign
  let whole ← decimalDigits
  let behind ← Reader.optional fraction
  let power ← Reader.optional exponent
  guard (behind.isSome || power.isSome)
  let behind := behind.getD []
  let tooLarge := isTooLarge (Digit.number 10 (whole ++ behind)) (power.getD 0 - behind.length)
  guard (negative || !tooLarge)

/-- Reads a float. -/
def float : Reader String :=
  Reader.taken (floatDigits <|> (sign *> (Reader.literal "inf" <|> Reader.literal "nan")))

end PacketWire.Toml
