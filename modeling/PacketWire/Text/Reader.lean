/-!
# Reading text from the front

A reader takes what it reads from the front of a text and leaves the rest, or fails and takes
nothing. Of two alternatives, the second is tried where the first fails.

* `many` reads as often as a reader succeeds and takes something.
-/

namespace PacketWire

/-- Takes what it reads from the front of a text, or fails. -/
abbrev Reader := StateT (List Char) Option

namespace Reader

variable {α β : Type}

/-- Reads all of a text. -/
def readAll? (reader : Reader α) (s : String) : Option α :=
  match reader.run s.toList with
  | some (value, []) => some value
  | _ => none

/-- Reads one character of a class. -/
def satisfy (p : Char → Bool) : Reader Char := fun text =>
  match text with
  | [] => none
  | c :: rest => if p c then some (c, rest) else none

/-- Reads a given character. -/
def char (c : Char) : Reader Unit := discard (satisfy (· == c))

/-- Reads given characters. -/
def literal (s : String) : Reader Unit := s.toList.forM char

/-- Reads the end of the text. -/
def atEnd : Reader Unit := fun text => if text.isEmpty then some ((), []) else none

/-- Reads all characters of a class at the front. -/
def takeWhile (p : Char → Bool) : Reader (List Char) := fun text =>
  some (text.takeWhile p, text.dropWhile p)

/-- Reads what may be missing. -/
def optional (reader : Reader α) : Reader (Option α) :=
  (some <$> reader) <|> pure none

/-- What a reader reads again and again, and the rest. -/
def repeated (reader : Reader α) (text : List Char) : List α × List Char :=
  match reader text with
  | none => ([], text)
  | some (value, rest) =>
    if rest.length < text.length then
      let (values, rest) := repeated reader rest
      (value :: values, rest)
    else ([], text)
termination_by text.length

/-- Reads as often as the reader succeeds and takes something. -/
def many (reader : Reader α) : Reader (List α) := fun text => some (repeated reader text)

/-- Reads at least once. -/
def many1 (reader : Reader α) : Reader (List α) := do
  let first ← reader
  let rest ← many reader
  return first :: rest

/-- Reads at least once, with a separator in between. -/
def sepBy1 (reader : Reader α) (separator : Reader β) : Reader (List α) := do
  let first ← reader
  let rest ← many (separator *> reader)
  return first :: rest

/-- Reads any number of times, with a separator in between. -/
def sepBy (reader : Reader α) (separator : Reader β) : Reader (List α) :=
  sepBy1 reader separator <|> pure []

/-- The text that a reader takes. -/
def taken (reader : Reader α) : Reader String := fun text => do
  let (_, rest) ← reader text
  return (String.ofList (text.take (text.length - rest.length)), rest)

end Reader

end PacketWire
