import PeerCache.Text.Hex
import PeerCache.Text.Invisible

/-!
# `PeerCache.Text.Quoted`: text shown in a message

Text from outside is put in double quotes before it enters a message. Quotes and
backslashes get a backslash, the usual control characters get their short form,
and every other character that would not show is given by its number.
-/

set_option autoImplicit false

namespace PeerCache.Text

/-- How one character is shown between quotes. -/
def quoteChar (c : Char) : String :=
  if c = '\x00' then "\\0"
  else if c = '\t' then "\\t"
  else if c = '\n' then "\\n"
  else if c = '\r' then "\\r"
  else if c = '\x22' then "\\\x22"
  else if c = '\\' then "\\\\"
  else if isInvisible c then "\\u\x7b" ++ Hex.ofNat c.toNat ++ "\x7d"
  else String.singleton c

/-- The text between quotes. -/
def quoted (text : String) : String :=
  "\x22" ++ String.join (text.toList.map quoteChar) ++ "\x22"

end PeerCache.Text
