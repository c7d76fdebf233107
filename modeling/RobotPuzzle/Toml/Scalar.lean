import RobotPuzzle.Counter
import RobotPuzzle.Text.Parser
import RobotPuzzle.Toml.Value

/-!
# Strings, numbers and times in TOML

## Main definitions

* `Toml.newline`, `Toml.space`, `Toml.comment` — what may stand around values
* `Toml.string` — the four kinds of strings
* `Toml.integer`, `Toml.float`, `Toml.datetime` — numbers and times
* `Toml.scalar` — any of these, or a truth value
-/

namespace RobotPuzzle.Toml

open RobotPuzzle.Parser

/-- Blanks within a line. -/
def isSpace (c : Char) : Bool := c == ' ' || c == '\t'

/-- Neither a control character nor the delete character, but a tab is allowed. -/
def isText (c : Char) : Bool := c == '\t' || (' ' ≤ c && c != '\x7f')

/-- Skips blanks within a line. -/
def space : Parser Unit := do let _ ← run isSpace

/-- A line feed, alone or after a carriage return. -/
def newline : Parser Unit := literal "\n" <|> literal "\r\n"

/-- A comment, up to the end of its line. -/
def comment : Parser Unit := do
  literal "#"
  let _ ← run isText

/-- What may stand between the elements of an array: blanks, line ends, and comments that end
with their line. -/
def gap : Parser Unit := do
  let _ ← many ((do let _ ← char isSpace) <|> newline <|> (comment *> newline))

/-! ## Strings -/

/-- The value of a hexadecimal digit. -/
def hexValue? (c : Char) : Option Nat :=
  if c.isDigit then some (c.toNat - '0'.toNat)
  else if 'a' ≤ c && c ≤ 'f' then some (c.toNat - 'a'.toNat + 10)
  else if 'A' ≤ c && c ≤ 'F' then some (c.toNat - 'A'.toNat + 10)
  else none

/-- Takes as many hexadecimal digits as requested. -/
def hexDigits : Nat → Nat → Parser Nat
  | 0, value => pure value
  | n + 1, value => do
    let c ← char fun _ => true
    let digit ← lift (hexValue? c)
    hexDigits n (16 * value + digit)

/-- A character by its code point, which is no surrogate. -/
def codePoint (digits : Nat) : Parser Char := do
  let n ← hexDigits digits 0
  lift (if _h : n.isValidChar then some (Char.ofNat n) else none)

/-- A character written with a backslash. -/
def escaped : Parser Char := do
  literal "\\"
  match ← char fun _ => true with
  | 'b' => pure '\x08'
  | 't' => pure '\t'
  | 'n' => pure '\n'
  | 'f' => pure '\x0c'
  | 'r' => pure '\r'
  | '"' => pure '"'
  | '\\' => pure '\\'
  | 'u' => codePoint 4
  | 'U' => codePoint 8
  | _ => failure

/-- A string between two quotation marks in one line. -/
def basicString : Parser String := do
  literal "\""
  let cs ← many (char (fun c => isText c && c != '"' && c != '\\') <|> escaped)
  literal "\""
  pure (String.ofList cs)

/-- A string between two apostrophes in one line, without escapes. -/
def literalString : Parser String := do
  literal "\x27"
  let cs ← run fun c => isText c && c != '\x27'
  literal "\x27"
  pure (String.ofList cs)

/-- A line end that a backslash hides, with all blanks and line ends after it. -/
def hiddenLineEnd : Parser Unit := do
  literal "\\"
  space
  newline
  let _ ← many ((do let _ ← char isSpace) <|> newline)

/-- One or two quotes within a string of several lines. The run of quotes they stand in must not
be long enough to end the string. -/
def looseQuotes (quote : Char) : Parser (List Char) := fun cs =>
  let quotes := cs.takeWhile (· == quote)
  if 0 < quotes.length && quotes.length < 3 then some (quotes, cs.dropWhile (· == quote)) else none

/-- The end of a string of several lines: three quotes, after up to two that belong to it. -/
def closingQuotes (quote : Char) : Parser (List Char) := fun cs =>
  let length := min 5 (cs.takeWhile (· == quote)).length
  if 3 ≤ length then some (List.replicate (length - 3) quote, cs.drop length) else none

/-- A string of several lines between threefold quotes. A line end right at its beginning does
not count, and every other one is a line feed. -/
def multiline (quote : Char) (piece : Parser (List Char)) : Parser String := do
  literal (String.ofList [quote, quote, quote])
  let _ ← optional newline
  let pieces ← many ((do newline; pure ['\n']) <|> looseQuotes quote <|> piece)
  let last ← closingQuotes quote
  pure (String.ofList (pieces.flatten ++ last))

/-- A string of any kind. -/
def string : Parser String :=
  multiline '"' ((do let c ← char fun c => isText c && c != '"' && c != '\\'; pure [c])
      <|> (do hiddenLineEnd; pure []) <|> (do let c ← escaped; pure [c]))
  <|> basicString
  <|> multiline '\x27' (do let c ← char fun c => isText c && c != '\x27'; pure [c])
  <|> literalString

/-! ## Numbers -/

/-- Digits with single underscores between them. -/
def digitRun (p : Char → Bool) : Parser (List Char) := do
  let first ← char p
  let more ← many do
    let _ ← optional (literal "_")
    char p
  pure (first :: more)

/-- The number that digits to a base denote. -/
def valueOf (base : Nat) (cs : List Char) : Nat :=
  cs.foldl (fun n c => base * n + (hexValue? c).getD 0) 0

/-- A sign; whether it is a minus sign. -/
def sign : Parser Bool :=
  (do literal "-"; pure true) <|> (do literal "+"; pure false) <|> pure false

/-- Decimal digits without a leading zero. -/
def wholePart : Parser (List Char) :=
  (do literal "0"; pure ['0']) <|> digitRun Char.isDigit

/-- Digits after a mark that names their base. -/
def based (mark : String) (base : Nat) : Parser Int := do
  literal mark
  let cs ← digitRun fun c => (hexValue? c).any (· < base)
  pure (valueOf base cs)

/-- An integer of 64 bits. -/
def integer : Parser Int := do
  let n ← based "0x" 16 <|> based "0o" 8 <|> based "0b" 2 <|> (do
    let negative ← sign
    let n : Int := valueOf 10 (← wholePart)
    pure (if negative then -n else n))
  if FitsWord n then pure n else failure

/-- The double nearest to `digits * 10 ^ exponent`. Beyond 400 places it is infinite or zero. -/
def nearestFloat (digits : List Char) (exponent : Int) : Float :=
  let n := valueOf 10 digits
  let place : Int := (digits.dropWhile (· == '0')).length + exponent
  if n = 0 || place < -400 then 0.0
  else if 400 < place then 1.0 / 0.0
  else Float.ofScientific n (exponent < 0) exponent.natAbs

/-- A number with a fraction or an exponent. One that is too large is refused, one that is too
small is infinite. -/
def decimalFloat : Parser Float := do
  let negative ← sign
  let whole ← wholePart
  let fraction ← optional (literal "." *> digitRun Char.isDigit)
  let exponent ← optional do
    let _ ← literal "e" <|> literal "E"
    let down ← sign
    let n : Int := valueOf 10 (← digitRun Char.isDigit)
    pure (if down then -n else n)
  if fraction.isNone && exponent.isNone then failure
  let digits := fraction.getD []
  let x := nearestFloat (whole ++ digits) (exponent.getD 0 - digits.length)
  if negative then pure (-x) else if x.isInf then failure else pure x

/-- An infinity or no number. -/
def specialFloat : Parser Float := do
  let negative ← sign
  let x ← (do literal "inf"; pure (1.0 / 0.0)) <|> (do literal "nan"; pure (0.0 / 0.0))
  pure (if negative then -x else x)

/-- A floating-point number. -/
def float : Parser Float := decimalFloat <|> specialFloat

/-! ## Dates and times -/

/-- A number of two digits within bounds. -/
def twoDigits (lo hi : Nat) : Parser Nat := do
  let a ← char Char.isDigit
  let b ← char Char.isDigit
  let n := valueOf 10 [a, b]
  if lo ≤ n && n ≤ hi then pure n else failure

/-- The number of days of a month. -/
def daysIn (year month : Nat) : Nat :=
  if month = 2 then
    if year % 4 = 0 ∧ (year % 100 ≠ 0 ∨ year % 400 = 0) then 29 else 28
  else if month = 4 ∨ month = 6 ∨ month = 9 ∨ month = 11 then 30
  else 31

/-- A date of the calendar. -/
def date : Parser Unit := do
  let year ← (List.replicate 4 ()).mapM fun _ => char Char.isDigit
  literal "-"
  let month ← twoDigits 1 12
  literal "-"
  let _ ← twoDigits 1 (daysIn (valueOf 10 year) month)

/-- A time of day, with a fraction of a second or not. A minute may have a leap second. -/
def time : Parser Unit := do
  let _ ← twoDigits 0 23
  literal ":"
  let _ ← twoDigits 0 59
  literal ":"
  let _ ← twoDigits 0 60
  let _ ← optional do
    literal "."
    let _ ← char Char.isDigit
    run Char.isDigit

/-- The distance of a time zone. -/
def offset : Parser Unit :=
  (do let _ ← char fun c => c == 'Z' || c == 'z') <|> do
    let _ ← char fun c => c == '+' || c == '-'
    let _ ← twoDigits 0 23
    literal ":"
    let _ ← twoDigits 0 59

/-- A date, a time, or both with a time zone or without. -/
def datetime : Parser Unit :=
  (do
    date
    let _ ← optional do
      let _ ← char fun c => c == 'T' || c == 't' || c == ' '
      time
      let _ ← optional offset)
  <|> time

/-! ## All of them -/

/-- A value that holds no other values. -/
def scalar : Parser Value :=
  .string <$> string
  <|> (do datetime; pure .datetime)
  <|> .float <$> float
  <|> .integer <$> integer
  <|> (do literal "true"; pure (.boolean true))
  <|> (do literal "false"; pure (.boolean false))

end RobotPuzzle.Toml
