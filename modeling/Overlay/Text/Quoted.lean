import Overlay.Bytes
import Overlay.Text.Unprintable

/-!
# Quoted text

`Text.quoted` shows a text so that a reader can tell what is in it: between double quotes, with short
escapes for the characters that have one, and the code point in braces for every other character that
cannot be shown by itself.
-/

namespace Overlay.Text

/-- The escape of one character in quoted text, or the character itself. -/
def quotedChar (c : Char) : String :=
  if c = '\x00' then "\\0"
  else if c = '\t' then "\\t"
  else if c = '\r' then "\\r"
  else if c = '\n' then "\\n"
  else if c = '\\' then "\\\\"
  else if c = '"' then "\\\""
  else if isPlain c then String.singleton c
  else "\\u\x7b" ++ hexNumber 1 c.toNat ++ "\x7d"

def quoted (s : String) : String :=
  "\"" ++ String.join (s.toList.map quotedChar) ++ "\""

end Overlay.Text
