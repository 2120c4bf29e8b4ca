import PacketWire.Bytes

/-!
# UTF-8

Bytes are read as UTF-8 one byte at a time. Where they are ill-formed, each maximal ill-formed part
(the longest start of a character, or else one byte) counts once: reading leniently puts one
replacement character for it, reading strictly refuses the text.

* `decodeLossy_ascii`: ASCII bytes stand for themselves.
-/

namespace PacketWire.Utf8

/-- Bytes of a text in UTF-8. -/
def length (s : String) : Nat := s.utf8ByteSize

/-- The character that stands for what is no character. -/
def replacement : Char := '\uFFFD'

/-- Where a reader stands between bytes. -/
inductive State where
  /-- Between characters. -/
  | between
  /-- Inside a character: `owed` bytes are still to come, the next of them from `low` to `high`,
  and `bits` holds what came so far. -/
  | inside (owed low high bits : Nat)
  deriving DecidableEq, Repr

/-- Reads the first byte of a character. What comes out is a character, or nothing for an
ill-formed part. -/
def first (b : Nat) : List (Option Char) × State :=
  if b < 0x80 then ([some (Char.ofNat b)], .between)
  else if b < 0xC2 then ([none], .between)
  else if b < 0xE0 then ([], .inside 1 0x80 0xBF (b % 0x20))
  else if b = 0xE0 then ([], .inside 2 0xA0 0xBF 0)
  else if b = 0xED then ([], .inside 2 0x80 0x9F 0xD)
  else if b < 0xF0 then ([], .inside 2 0x80 0xBF (b % 0x10))
  else if b = 0xF0 then ([], .inside 3 0x90 0xBF 0)
  else if b < 0xF4 then ([], .inside 3 0x80 0xBF (b % 8))
  else if b = 0xF4 then ([], .inside 3 0x80 0x8F 4)
  else ([none], .between)

/-- Reads one byte. A byte that cannot continue the character at hand ends an ill-formed part and
is read as the first byte of the next character. -/
def step : State → Nat → List (Option Char) × State
  | .between, b => first b
  | .inside owed low high bits, b =>
    if low ≤ b ∧ b ≤ high then
      let bits := bits * 0x40 + b % 0x40
      if owed ≤ 1 then ([some (Char.ofNat bits)], .between)
      else ([], .inside (owed - 1) 0x80 0xBF bits)
    else
      let (out, next) := first b
      (none :: out, next)

/-- The characters of a byte string, with nothing in the place of each ill-formed part. -/
def parts : State → Bytes → List (Option Char)
  | .between, [] => []
  | .inside .., [] => [none]
  | state, b :: rest =>
    let (out, next) := step state b.toNat
    out ++ parts next rest

/-- Reads a byte string with a replacement character for each ill-formed part. -/
def decodeLossy (bytes : Bytes) : String :=
  String.ofList ((parts .between bytes).map (·.getD replacement))

/-- Reads a byte string that is well-formed. -/
def decode? (bytes : Bytes) : Option String :=
  ((parts .between bytes).mapM id).map String.ofList

theorem parts_ascii (bytes : Bytes) (h : ∀ b ∈ bytes, b.toNat < 0x80) :
    parts .between bytes = bytes.map fun b => some (Char.ofNat b.toNat) := by
  induction bytes with
  | nil => rfl
  | cons b rest ih =>
    have hb : b.toNat < 0x80 := h b (by simp)
    rw [parts]
    simp only [step, first, hb, ite_true, List.map_cons, List.cons_append, List.nil_append]
    rw [ih fun c hc => h c (by simp [hc])]

theorem decodeLossy_ascii (bytes : Bytes) (h : ∀ b ∈ bytes, b.toNat < 0x80) :
    decodeLossy bytes = String.ofList (bytes.map fun b => Char.ofNat b.toNat) := by
  simp [decodeLossy, parts_ascii bytes h, Function.comp_def]

end PacketWire.Utf8
