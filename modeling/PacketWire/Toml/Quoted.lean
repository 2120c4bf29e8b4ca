import PacketWire.Text.Digit
import PacketWire.Text.Reader

/-!
# Texts in quotes

A text stands between double quotes, with a backslash in front of what is written in another way,
or between single quotes as it is. Between three quotes of either kind it may go on over several
lines, a line break right behind the opening quotes not being part of it, and up to two quotes in a
row stand for themselves.

A text is written in the first of these forms that needs no backslash: between double quotes,
between single quotes, between three double quotes, between three single quotes. Where each needs
one, it is written between double quotes, three of them if it has several lines.
-/

namespace PacketWire.Toml

/-! ## Characters -/

/-- Whether a character separates words within a line. -/
def isBlank (c : Char) : Bool := c == ' ' || c == '\t'

/-- Whether a character may be written as it is: no control character apart from the tab. -/
def isPlain (c : Char) : Bool := c == '\t' || (' ' ≤ c && c != '\x7f')

/-- Reads blanks. -/
def blanks : Reader Unit := discard (Reader.takeWhile isBlank)

/-- Reads a line break. -/
def newline : Reader Unit := Reader.literal "\n" <|> Reader.literal "\r\n"

/-! ## Reading -/

/-- Reads the number of a character in hexadecimal. -/
def codePoint (digits : Nat) : Reader Char := do
  let row ← (List.range digits).mapM fun _ => Reader.satisfy (Digit.isDigit 16)
  let n := Digit.number 16 row
  guard n.isValidChar
  return Char.ofNat n

/-- Reads what stands behind a backslash. -/
def escaped : Reader Char := do
  match ← Reader.satisfy fun _ => true with
  | 'b' => return '\x08'
  | 't' => return '\t'
  | 'n' => return '\n'
  | 'f' => return '\x0c'
  | 'r' => return '\r'
  | '"' => return '"'
  | '\\' => return '\\'
  | 'u' => codePoint 4
  | 'U' => codePoint 8
  | _ => failure

/-- Reads a character between double quotes. -/
def basicChar : Reader Char := do
  match ← Reader.satisfy fun c => isPlain c && c != '"' with
  | '\\' => escaped
  | c => return c

/-- Reads a character between single quotes. -/
def literalChar : Reader Char := Reader.satisfy fun c => isPlain c && c != '\''

/-- Reads a text on one line. -/
def onOneLine (quote : Char) (content : Reader Char) : Reader String := do
  Reader.char quote
  let text ← Reader.many content
  Reader.char quote
  return String.ofList text

/-- Reads a text between double quotes. -/
def basicText : Reader String := onOneLine '"' basicChar

/-- Reads a text between single quotes. -/
def literalText : Reader String := onOneLine '\'' literalChar

/-- Reads quotes in a row. -/
def quotes (quote : Char) (count : Nat) : Reader Unit :=
  Reader.literal (String.ofList (List.replicate count quote))

/-- Reads one or two quotes that stand for themselves. -/
def innerQuotes (quote : Char) : Reader (List Char) := do
  let row ← Reader.takeWhile (· == quote)
  guard (1 ≤ row.length && row.length ≤ 2)
  return row

/-- Reads the closing quotes, with up to two in front of them that stand for themselves. -/
def closingQuotes (quote : Char) : Reader (List Char) := do
  quotes quote 3
  let more ← Reader.many (Reader.satisfy (· == quote))
  guard (more.length ≤ 2)
  return more

/-- Reads a backslash at the end of a line with everything blank behind it, which stands for
nothing. -/
def foldedBreak : Reader (List Char) := do
  Reader.char '\\'
  blanks
  newline
  discard (Reader.many (discard (Reader.satisfy isBlank) <|> newline))
  return []

/-- Reads a text that may go on over several lines. -/
def onManyLines (quote : Char) (content : Reader (List Char)) : Reader String := do
  quotes quote 3
  discard (Reader.optional newline)
  let parts ← Reader.many (content <|> (newline *> pure ['\n']) <|> innerQuotes quote)
  let last ← closingQuotes quote
  return String.ofList (parts.flatten ++ last)

/-- Reads a text in quotes of any kind. -/
def quotedText : Reader String :=
  onManyLines '"' (foldedBreak <|> (fun c => [c]) <$> basicChar) <|> basicText <|>
    onManyLines '\'' ((fun c => [c]) <$> literalChar) <|> literalText

/-! ## Writing -/

/-- How a text is put in quotes. -/
inductive Style where
  | basic
  | literal
  | basicLines
  | literalLines
  deriving DecidableEq, Repr

namespace Style

/-- The quotes at either end. -/
def delimiter : Style → List Char
  | basic => ['"']
  | literal => ['\'']
  | basicLines => ['"', '"', '"']
  | literalLines => ['\'', '\'', '\'']

/-- Whether a text may go on over several lines. -/
def hasLines : Style → Bool
  | basic | literal => false
  | basicLines | literalLines => true

/-- Whether a backslash writes a character in another way. -/
def hasEscapes : Style → Bool
  | basic | basicLines => true
  | literal | literalLines => false

/-- The quotes in a row that may stand for themselves. -/
def innerQuotes (style : Style) : Nat := if style.hasLines then 2 else 0

end Style

/-- The length of the longest row of a character, when `run` of them have just been seen. -/
def longestRow (quote : Char) : Nat → List Char → Nat
  | run, [] => run
  | run, c :: rest =>
    if c = quote then longestRow quote (run + 1) rest else max run (longestRow quote 0 rest)

/-- Whether a text is written as it is in a style. -/
def isPlainIn (style : Style) (text : List Char) : Bool :=
  text.all (fun c => isPlain c || c == '\n') &&
    (style.hasLines || !text.contains '\n') &&
    (!style.hasEscapes || !text.contains '\\') &&
    longestRow (if style.hasEscapes then '"' else '\'') 0 text ≤ style.innerQuotes

/-- The style in which a text is written. -/
def styleOf (text : List Char) : Style :=
  let styles := [Style.basic, .literal, .basicLines, .literalLines]
  match styles.find? (isPlainIn · text) with
  | some style => style
  | none => if text.contains '\n' then .basicLines else .basic

/-- The upper-case hexadecimal digits of a number. -/
def hexDigits (count n : Nat) : List Char :=
  (List.range count).map fun i =>
    let digit := n >>> (4 * (count - 1 - i)) % 16
    Char.ofNat (if digit < 10 then 48 + digit else 55 + digit)

/-- A character with a backslash, where a style needs one. -/
def escape? (style : Style) (c : Char) : Option (List Char) :=
  match c with
  | '\x08' => some ['\\', 'b']
  | '\t' => some ['\\', 't']
  | '\n' => if style.hasLines then none else some ['\\', 'n']
  | '\x0c' => some ['\\', 'f']
  | '\r' => some ['\\', 'r']
  | '\\' => some ['\\', '\\']
  | c => if isPlain c then none else some ('\\' :: 'u' :: hexDigits 4 c.toNat)

/-- Writes a text with backslashes, when `row` quotes that stand for themselves have just been
written. -/
def escapeText (style : Style) : Nat → List Char → List Char
  | _, [] => []
  | row, c :: rest =>
    if c = '"' then
      if row < style.innerQuotes then c :: escapeText style (row + 1) rest
      else '\\' :: c :: escapeText style 0 rest
    else (escape? style c).getD [c] ++ escapeText style 0 rest

/-- Writes a text in quotes. -/
def renderText (s : String) : String :=
  let text := s.toList
  let style := styleOf text
  let opening := style.delimiter ++ if style.hasLines && text.contains '\n' then ['\n'] else []
  let body := if style.hasEscapes then escapeText style 0 text else text
  String.ofList (opening ++ body ++ style.delimiter)

end PacketWire.Toml
