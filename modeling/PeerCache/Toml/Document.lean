import PeerCache.Toml.Item
import PeerCache.Toml.Scalar

/-!
# `PeerCache.Toml.Document`: a TOML document from text

A document is read line by line. A line is a header, a repeated header, an entry,
or nothing but blanks and a comment. Reading gives the list of these statements.
Carrying them out one after the other gives the root table, or nothing where a
statement goes against an earlier one.

Keys of too many parts and values nested too deeply are refused.
-/

set_option autoImplicit false

namespace PeerCache.Toml

open PeerCache.Text (Reader)
open PeerCache.Text.Reader (exactly literal takeWhile1 many separated whole)

/-- Keys have fewer parts than this, and values fewer levels. -/
def nestingLimit : Nat := 80

/-- A character of a key without quotes. -/
def isBare (c : Char) : Bool :=
  ('a' ≤ c && c ≤ 'z') || ('A' ≤ c && c ≤ 'Z') || ('0' ≤ c && c ≤ '9') || c == '_' || c == '-'

/-- One part of a key. -/
def keyPart : Reader String :=
  (String.ofList <$> takeWhile1 isBare) <|> basicText <|> literalText

/-- A dotted key, as the parts before the last and the last. Blanks may stand around each part. -/
def dottedKey : Reader (List String × String) := do
  let parts ← separated (blanks *> keyPart <* blanks) (exactly '.')
  match parts.getLast? with
  | some last => if parts.length < nestingLimit then return (parts.dropLast, last) else failure
  | none => failure

/-- A dotted key, an equals sign, and a value. -/
def pair (value : Reader Item) : Reader (List String × String × Item) := do
  let (path, key) ← dottedKey
  exactly '='
  blanks
  return (path, key, ← value)

/-- Blanks, line breaks and comments. -/
def gap : Reader Unit := do
  let _ ← many ((takeWhile1 isBlank *> pure ()) <|> lineBreak <|> comment)

/-- Items in brackets, over several lines if need be. A comma may follow the last one. -/
def list (value : Reader Item) : Reader Item := do
  exactly '['
  let items ← optional (separated (gap *> value <* gap) (exactly ','))
  if items.isSome then
    let _ ← optional (exactly ',')
  gap
  exactly ']'
  return .list (items.getD [])

/-- Pairs in braces, on one line. -/
def inlineTable (value : Reader Item) : Reader Item := do
  exactly '\x7b'
  let pairs ← optional (separated (pair value <* blanks) (exactly ','))
  blanks
  exactly '\x7d'
  let entries ← ((pairs.getD []).foldlM (fun entries (path, key, item) =>
    Entries.insert item path key entries) [] : Option Entries)
  return .table .closed entries

/-- A value that holds no other values. -/
def scalar : Reader Item :=
  (.text <$> anyText) <|> (time *> pure .time) <|> (decimal *> pure .number) <|>
    (integer *> pure .number) <|> (literal "true".toList *> pure (.boolean true)) <|>
    (literal "false".toList *> pure (.boolean false))

/-- A value that holds others to at most the given depth. -/
def value : (depth : Nat) → Reader Item
  | 0, text => scalar text
  | depth + 1, text => (scalar <|> list (value depth) <|> inlineTable (value depth)) text

/-- What a line of a document says. -/
inductive Statement where
  /-- Entries from here on go to this table. -/
  | header (path : List String)
  /-- Entries from here on go to a further table of this name. -/
  | element (path : List String)
  | entry (path : List String) (key : String) (item : Item)

namespace Statement

/-- The path of a header. -/
def headerPath : Reader (List String) := do
  let (path, key) ← dottedKey
  return path ++ [key]

/-- A statement without what may follow it on the line. -/
def read : Reader Statement :=
  (.element <$> (literal ['[', '['] *> headerPath <* literal [']', ']'])) <|>
    (.header <$> (exactly '[' *> headerPath <* exactly ']')) <|> do
      let (path, key, item) ← pair (value (nestingLimit - 1))
      return .entry path key item

/-- A line with its end: a statement or nothing, and perhaps a comment. -/
def readLine : Reader (Option Statement) := do
  blanks
  let statement ← optional read
  blanks
  let _ ← optional comment
  lineBreak <|> Reader.atEnd
  return statement

/-- Carries out a statement on the root table and the path of the table that
entries go to. The empty path stands for the root. -/
def apply : Entries × List String → Statement → Option (Entries × List String)
  | (root, _), .header path => do
    return (← Entries.descend Entries.declare path root, path)
  | (root, _), .element path => do
    return (← Entries.descend Entries.declareElement path root, path)
  | (root, []), .entry path key item => do
    return (← Entries.insert item path key root, [])
  | (root, current), .entry path key item => do
    return (← Entries.descend (Entries.enter (Entries.insert item path key)) current root, current)

end Statement

/-- The root table of a document. A byte order mark in front does not count. -/
def ofText? (text : String) : Option Entries := do
  let cs := match text.toList with
    | '\ufeff' :: cs => cs
    | cs => cs
  let lines ← (many Statement.readLine).whole cs
  let (root, _) ← (lines.filterMap id).foldlM Statement.apply ([], [])
  return root

end PeerCache.Toml
