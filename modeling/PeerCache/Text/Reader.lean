/-!
# `PeerCache.Text.Reader`: reading text from the front

A reader takes the characters that are left and returns what it read with the
characters that are left then. It returns nothing when the text does not fit.
Trying one reader after another starts both at the same place.
-/

set_option autoImplicit false

namespace PeerCache.Text

/-- A reader of text. -/
abbrev Reader (α : Type) := StateT (List Char) Option α

namespace Reader

variable {α β : Type}

/-- A character that passes a test. -/
def satisfying (p : Char → Bool) : Reader Char
  | [] => none
  | c :: rest => if p c then some (c, rest) else none

/-- One given character. -/
def exactly (c : Char) : Reader Unit := do
  let _ ← satisfying (· == c)

/-- The given characters in a row. -/
def literal (cs : List Char) : Reader Unit := cs.forM exactly

/-- The characters up to the first that fails a test, possibly none. -/
def takeWhile (p : Char → Bool) : Reader (List Char) := fun text =>
  some (text.takeWhile p, text.dropWhile p)

/-- The characters up to the first that fails a test, at least one. -/
def takeWhile1 (p : Char → Bool) : Reader (List Char) := do
  let cs ← takeWhile p
  if cs.isEmpty then failure else return cs

/-- What a reader reads over and over, until it does not fit or reads no character. -/
def manyFrom (reader : Reader α) (text : List Char) : List α × List Char :=
  match reader text with
  | none => ([], text)
  | some (a, rest) =>
    if _h : rest.length < text.length then
      let (as, rest) := manyFrom reader rest
      (a :: as, rest)
    else ([], text)
termination_by text.length

/-- What a reader reads over and over, possibly nothing. -/
def many (reader : Reader α) : Reader (List α) := fun text => some (manyFrom reader text)

/-- One item or more, with separators between them. -/
def separated (item : Reader α) (separator : Reader β) : Reader (List α) := do
  let first ← item
  let others ← many (separator *> item)
  return first :: others

/-- The end of the text. -/
def atEnd : Reader Unit
  | [] => some ((), [])
  | _ :: _ => none

/-- What a reader makes of a whole text. -/
def whole (reader : Reader α) (text : List Char) : Option α :=
  match reader text with
  | some (a, []) => some a
  | _ => none

/-- The value of a hexadecimal digit in either case. -/
def hexDigit? (c : Char) : Option Nat :=
  if '0' ≤ c ∧ c ≤ '9' then some (c.toNat - 48)
  else if 'a' ≤ c ∧ c ≤ 'f' then some (c.toNat - 87)
  else if 'A' ≤ c ∧ c ≤ 'F' then some (c.toNat - 55)
  else none

/-- The value of a digit in the given base, at most 16. -/
def digit? (base : Nat) (c : Char) : Option Nat := (hexDigit? c).filter (· < base)

/-- The number that digits in the given base denote. -/
def ofDigits (base : Nat) (cs : List Char) : Nat :=
  cs.foldl (fun n c => n * base + (digit? base c).getD 0) 0

/-- All digits in the given base from here on, at least one. -/
def digits (base : Nat) : Reader (List Char) := takeWhile1 fun c => (digit? base c).isSome

/-- The number that all digits from here on denote, which must be below `bound`. -/
def number (base bound : Nat) : Reader Nat := do
  let n := ofDigits base (← digits base)
  if n < bound then return n else failure

end Reader

end PeerCache.Text
