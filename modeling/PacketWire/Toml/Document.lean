import PacketWire.Toml.DateTime
import PacketWire.Toml.Number
import PacketWire.Toml.Quoted
import PacketWire.Toml.Table

/-!
# Configuration files

A file is read line by line: an entry, a header, or nothing, and behind that a comment or not. A
value may be an array of values, which may go on over several lines, or a table in braces, which
may not. Arrays and braces nest less than eighty deep, and a dotted key has fewer than eighty parts.

* `parse?` reads a file and assembles its tables.
-/

namespace PacketWire.Toml

/-- The depth that nested values, and the length that dotted keys, stay below. -/
def depthLimit : Nat := 80

/-! ## Blanks and comments -/

/-- Reads a comment, up to the end of the line. -/
def comment : Reader Unit := Reader.char '#' *> discard (Reader.takeWhile isPlain)

/-- Reads the rest of a line on which nothing more is written. -/
def lineEnd : Reader Unit := do
  blanks
  discard (Reader.optional comment)
  newline <|> Reader.atEnd

/-- Reads blanks, line breaks and comments. -/
def blankLines : Reader Unit :=
  discard (Reader.many
    (discard (Reader.satisfy isBlank) <|> newline <|> (comment *> newline)))

/-! ## Keys -/

/-- Whether a character may stand in a key without quotes. -/
def isBare (c : Char) : Bool := c.isAlphanum || c == '_' || c == '-'

/-- Reads one part of a key. -/
def keyPart : Reader String := do
  blanks
  let part ← basicText <|> literalText <|> String.ofList <$> Reader.many1 (Reader.satisfy isBare)
  blanks
  return part

/-- Reads a dotted key: the parts in front of the last, and the last. -/
def dottedKey : Reader (List String × String) := do
  let parts ← Reader.sepBy1 keyPart (Reader.char '.')
  guard (parts.length < depthLimit)
  match parts.getLast? with
  | some last => return (parts.dropLast, last)
  | none => failure

/-! ## Values -/

/-- Reads a key and its value. -/
def entryOf (value : Reader Value) : Reader Entry := do
  let (path, key) ← dottedKey
  Reader.char '='
  blanks
  return ⟨path, key, ← value⟩

/-- Reads values between brackets, and a comma behind the last or not. -/
def arrayOf (value : Reader Value) : Reader (List Value) := do
  Reader.char '['
  let items ← Reader.sepBy (blankLines *> value <* blankLines) (Reader.char ',')
  if items.isEmpty then pure () else discard (Reader.optional (Reader.char ','))
  blankLines
  Reader.char ']'
  return items

/-- Reads entries in braces. -/
def bracesOf (value : Reader Value) : Reader Table := do
  Reader.char '{'
  let entries ← Reader.sepBy (entryOf value <* blanks) (Reader.char ',')
  blanks
  Reader.char '}'
  StateT.lift (ofEntries? entries)

/-- Reads a value that is no array and no table. -/
def simpleValue : Reader Value :=
  .text <$> quotedText <|>
  .dateTime <$> dateTime <|>
  .float <$> float <|>
  .integer <$> integer <|>
  (Reader.literal "true" *> pure (.boolean true)) <|>
  (Reader.literal "false" *> pure (.boolean false))

/-- Reads a value that nests less deep than a limit. -/
def value : Nat → Reader Value
  | 0 => simpleValue
  | depth + 1 =>
    simpleValue <|> .array <$> arrayOf (value depth) <|>
      .table .braces <$> bracesOf (value depth)

/-! ## Lines -/

/-- A line. -/
inductive Line where
  | blank
  | entry (entry : Entry)
  | header (isElement : Bool) (path : List String) (key : String)

/-- Reads a header. -/
def header : Reader Line := do
  Reader.char '['
  let isElement := (← Reader.optional (Reader.char '[')).isSome
  let (path, key) ← dottedKey
  Reader.literal (if isElement then "]]" else "]")
  return .header isElement path key

/-- Reads a line, to its end. -/
def line : Reader Line := do
  blanks
  let line ← header <|> .entry <$> entryOf (value (depthLimit - 1)) <|> pure .blank
  lineEnd
  return line

namespace Document

/-- The document that lines make up. -/
def ofLines : List Line → Document
  | [] => ⟨[], []⟩
  | .blank :: rest => ofLines rest
  | .entry entry :: rest =>
    let document := ofLines rest
    { document with entries := entry :: document.entries }
  | .header isElement path key :: rest =>
    let ⟨entries, sections⟩ := ofLines rest
    ⟨[], ⟨isElement, path, key, entries⟩ :: sections⟩

/-- Reads a document, behind a byte order mark or not. -/
def reader : Reader Document := do
  discard (Reader.optional (Reader.char '\uFEFF'))
  let lines ← Reader.many line
  Reader.atEnd
  return ofLines lines

end Document

/-- The table that a file stands for. -/
def parse? (s : String) : Option Table := (Document.reader.readAll? s).bind (·.table?)

end PacketWire.Toml
