import PeerCache.Text.Reader

/-!
# `PeerCache.Toml.Scalar`: numbers, times and texts of a TOML document

Each reader accepts what the format allows and nothing longer. Numbers and times
are checked and then forgotten: an integer must fit into 64 bits with a sign, a
decimal must not grow beyond the floats, and a date must exist.
-/

set_option autoImplicit false

namespace PeerCache.Toml

open PeerCache.Text (Reader)
open PeerCache.Text.Reader (satisfying exactly literal takeWhile takeWhile1 many digit?
  ofDigits)

/-- A space or tab. -/
def isBlank (c : Char) : Bool := c == ' ' || c == '\t'

/-- A character that may stand in a comment: anything but the ASCII control characters. -/
def isPrintable (c : Char) : Bool := c == '\t' || (0x20 ≤ c.toNat && c.toNat != 0x7f)

/-- Spaces and tabs. -/
def blanks : Reader Unit := do
  let _ ← takeWhile isBlank

/-- A line break. -/
def lineBreak : Reader Unit := exactly '\n' <|> literal ['\r', '\n']

/-- A comment, up to the end of the line. -/
def comment : Reader Unit := do
  exactly '#'
  let _ ← takeWhile isPrintable

/-- Digits in the given base from here on, with single underscores between them. -/
def digitRun (base : Nat) : List Char → List Char × List Char
  | [] => ([], [])
  | '_' :: c :: rest =>
    if (digit? base c).isSome then
      let (cs, rest) := digitRun base rest
      (c :: cs, rest)
    else ([], '_' :: c :: rest)
  | c :: rest =>
    if (digit? base c).isSome then
      let (cs, rest) := digitRun base rest
      (c :: cs, rest)
    else ([], c :: rest)

/-- At least one digit, with single underscores between them. -/
def spacedDigits (base : Nat) : Reader (List Char) := do
  let first ← satisfying fun c => (digit? base c).isSome
  let others ← fun text => some (digitRun base text)
  return first :: others

/-- An optional sign. Returns whether it is a minus. -/
def sign : Reader Bool := do
  match ← optional (satisfying fun c => c == '+' || c == '-') with
  | some c => return c == '-'
  | none => return false

/-- Decimal digits without a leading zero. -/
def plainDigits : Reader (List Char) := do
  let ds ← (exactly '0' *> pure ['0']) <|> spacedDigits 10
  return ds

/-- Integers lie below this number, and not below its negation. -/
def integerBound : Nat := 1 <<< 63

/-- A whole number that fits into 64 bits with a sign. -/
def integer : Reader Unit := do
  let based (mark : Char) (base : Nat) : Reader Unit := do
    literal ['0', mark]
    if ofDigits base (← spacedDigits base) < integerBound then return () else failure
  let decimal : Reader Unit := do
    let negative ← sign
    let n := ofDigits 10 (← plainDigits)
    if n < integerBound ∨ (negative ∧ n = integerBound) then return () else failure
  based 'x' 16 <|> based 'o' 8 <|> based 'b' 2 <|> decimal

/-- Whether `digits` times a power of ten is too large for a float of 64 bits. -/
def overflows (digits : Nat) (exponent : Int) : Bool :=
  -- The least number that is rounded up beyond the largest float.
  let bound := (1 <<< 1024) - (1 <<< 970)
  if digits = 0 then false
  else if 400 < exponent then true
  else match exponent with
    | .ofNat e => bound ≤ digits * Nat.pow 10 e
    | .negSucc e =>
      -- A quotient of too few digits is small, whatever the exact power.
      if digits.log2 < e then false else bound * Nat.pow 10 (e + 1) ≤ digits

/-- A number with a fraction or an exponent, or one of the special numbers. A
number may overflow only towards minus infinity. -/
def decimal : Reader Unit := do
  let negative ← sign
  let special : Reader Unit := literal ['i', 'n', 'f'] <|> literal ['n', 'a', 'n']
  let fraction : Reader (List Char) := exactly '.' *> spacedDigits 10
  let exponent : Reader Int := do
    let _ ← satisfying fun c => c == 'e' || c == 'E'
    let negative ← sign
    let n : Int := ofDigits 10 (← spacedDigits 10)
    return if negative then -n else n
  let ordinary : Reader Unit := do
    let whole ← plainDigits
    let (places, power) ← (do
      let places ← fraction
      return (places, (← optional exponent).getD 0)) <|> (do return ([], ← exponent))
    if overflows (ofDigits 10 (whole ++ places)) (power - places.length) ∧ !negative then failure
    else return ()
  ordinary <|> special

/-- A number of exactly `count` decimal digits, within bounds. -/
def fixed (count least most : Nat) : Reader Nat := do
  let ds ← (List.replicate count ()).mapM fun _ => satisfying fun c => (digit? 10 c).isSome
  let n := ofDigits 10 ds
  if least ≤ n ∧ n ≤ most then return n else failure

/-- The days of a month. -/
def daysIn (year month : Nat) : Nat :=
  if month = 2 then
    if year % 4 = 0 ∧ (year % 100 ≠ 0 ∨ year % 400 = 0) then 29 else 28
  else if month = 4 ∨ month = 6 ∨ month = 9 ∨ month = 11 then 30
  else 31

/-- A date that exists. -/
def date : Reader Unit := do
  let year ← fixed 4 0 9999
  exactly '-'
  let month ← fixed 2 1 12
  exactly '-'
  let _ ← fixed 2 1 (daysIn year month)

/-- A time of day. A leap second is allowed. -/
def timeOfDay : Reader Unit := do
  let _ ← fixed 2 0 23
  exactly ':'
  let _ ← fixed 2 0 59
  exactly ':'
  let _ ← fixed 2 0 60
  let _ ← optional (exactly '.' *> takeWhile1 fun c => (digit? 10 c).isSome)

/-- The distance of a local time from universal time. -/
def offset : Reader Unit := do
  let zulu : Reader Unit := exactly 'Z' <|> exactly 'z'
  let ahead : Reader Unit := do
    let _ ← satisfying fun c => c == '+' || c == '-'
    let _ ← fixed 2 0 23
    exactly ':'
    let _ ← fixed 2 0 59
  zulu <|> ahead

/-- A date, a time of day, or both, in which case an offset may follow. -/
def time : Reader Unit := do
  let dateTime : Reader Unit := do
    date
    let _ ← optional (do
      let _ ← satisfying fun c => c == 'T' || c == 't' || c == ' '
      timeOfDay
      let _ ← optional offset)
  dateTime <|> timeOfDay

/-- Exactly `count` hexadecimal digits that number a character. -/
def codePoint (count : Nat) : Reader Char := do
  let ds ← (List.replicate count ()).mapM fun _ => satisfying fun c => (digit? 16 c).isSome
  let n := ofDigits 16 ds
  if n.isValidChar then return Char.ofNat n else failure

/-- What follows a backslash inside double quotes. -/
def escape : Reader Char := do
  let c ← satisfying fun _ => true
  if c = 'b' then return '\x08'
  else if c = 't' then return '\t'
  else if c = 'n' then return '\n'
  else if c = 'f' then return '\x0c'
  else if c = 'r' then return '\r'
  else if c = '\x22' ∨ c = '\\' then return c
  else if c = 'u' then codePoint 4
  else if c = 'U' then codePoint 8
  else failure

/-- A character between double quotes that stands for itself. -/
def isBasic (c : Char) : Bool := isPrintable c && c != '\x22' && c != '\\'

/-- A character between single quotes that stands for itself. -/
def isLiteral (c : Char) : Bool := isPrintable c && c != '\x27'

/-- Characters that stand for themselves, or one that is escaped. -/
def basicPiece : Reader (List Char) :=
  takeWhile1 isBasic <|> (exactly '\\' *> (fun c => [c]) <$> escape)

/-- Text between double quotes, on one line. -/
def basicText : Reader String := do
  exactly '\x22'
  let pieces ← many basicPiece
  exactly '\x22'
  return String.ofList pieces.flatten

/-- Text between single quotes, on one line. -/
def literalText : Reader String := do
  exactly '\x27'
  let cs ← takeWhile isLiteral
  exactly '\x27'
  return String.ofList cs

/-- A backslash at the end of a line, with all blanks and line breaks after it. -/
def joinedLines : Reader Unit := do
  exactly '\\'
  blanks
  lineBreak
  let _ ← many (satisfying isBlank *> pure () <|> lineBreak)

/-- The end of a text over several lines: three quotes, and one or two before them that belong
to the text. -/
def closing (quote : Char) : Reader (List Char) :=
  let three := [quote, quote, quote]
  (literal (quote :: quote :: three) *> pure [quote, quote]) <|>
    (literal (quote :: three) *> pure [quote]) <|> (literal three *> pure [])

/-- One or two quotes inside a text over several lines. -/
def innerQuotes (quote : Char) : Reader (List Char) := do
  let cs ← takeWhile1 (· == quote)
  if cs.length ≤ 2 then return cs else failure

/-- Text over several lines. A line break right after the opening quotes does not count, and
every line break is read as one character. -/
def longText (quote : Char) (piece : Reader (List Char)) : Reader String := do
  literal [quote, quote, quote]
  let _ ← optional lineBreak
  let pieces ← many (piece <|> (lineBreak *> pure ['\n']) <|> innerQuotes quote)
  let last ← closing quote
  return String.ofList (pieces.flatten ++ last)

/-- Text between three double quotes. -/
def longBasicText : Reader String := longText '\x22' ((joinedLines *> pure []) <|> basicPiece)

/-- Text between three single quotes. -/
def longLiteralText : Reader String := longText '\x27' (takeWhile1 isLiteral)

/-- Text in any quotes. -/
def anyText : Reader String := longBasicText <|> basicText <|> longLiteralText <|> literalText

end PeerCache.Toml
