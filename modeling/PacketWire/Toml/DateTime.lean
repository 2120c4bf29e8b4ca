import PacketWire.Text.Digit
import PacketWire.Text.Reader

/-!
# Dates and times in a configuration file

A date is `year-month-day`, a time is `hour:minute:second` with a fraction or not. Both may stand
together, with `T` or a blank in between, and then an offset may follow: `Z`, or a sign with hours
and minutes. Days exist in their month, and a minute may have a leap second.
-/

namespace PacketWire.Toml

/-- Reads a number of so many digits in a range. -/
def numberWithin (count low high : Nat) : Reader Nat := do
  let row ← (List.range count).mapM fun _ => Reader.satisfy Char.isDigit
  let n := Digit.number 10 row
  guard (low ≤ n && n ≤ high)
  return n

/-- Whether a year has a leap day. -/
def isLeapYear (year : Nat) : Bool := year % 4 == 0 && (year % 100 != 0 || year % 400 == 0)

/-- The days of a month. -/
def daysOf (year month : Nat) : Nat :=
  if month = 2 then if isLeapYear year then 29 else 28
  else if month ∈ [4, 6, 9, 11] then 30
  else 31

/-- Reads a date. -/
def date : Reader Unit := do
  let year ← numberWithin 4 0 9999
  Reader.char '-'
  let month ← numberWithin 2 1 12
  Reader.char '-'
  discard (numberWithin 2 1 (daysOf year month))

/-- Reads an hour and a minute. -/
def hourAndMinute : Reader Unit := do
  discard (numberWithin 2 0 23)
  Reader.char ':'
  discard (numberWithin 2 0 59)

/-- Reads a time. -/
def time : Reader Unit := do
  hourAndMinute
  Reader.char ':'
  discard (numberWithin 2 0 60)
  discard (Reader.optional (Reader.char '.' *> Reader.many1 (Reader.satisfy Char.isDigit)))

/-- Reads what a time is off from universal time. -/
def offset : Reader Unit :=
  discard (Reader.satisfy fun c => c == 'Z' || c == 'z') <|>
    (discard (Reader.satisfy fun c => c == '+' || c == '-') *> hourAndMinute)

/-- Reads a time behind a date. -/
def timeOfDay : Reader Unit := do
  discard (Reader.satisfy fun c => c == 'T' || c == 't' || c == ' ')
  time
  discard (Reader.optional offset)

/-- Reads a date, a time, or both. -/
def dateTime : Reader String :=
  Reader.taken ((date *> discard (Reader.optional timeOfDay)) <|> time)

end PacketWire.Toml
