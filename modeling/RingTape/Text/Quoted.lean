/-
Quoted texts: a text between double quotes, in which the quote and the backslash carry a backslash, the common
controls have a letter of their own, and a character that is not shown stands as its number in hexadecimal
digits between braces.
-/
import RingTape.Text.Hex
import RingTape.Text.Printable

namespace RingTape.Quoted

/-- the written form of one character -/
def escape (c : Char) : String :=
  if c = '"' then "\\\""
  else if c = '\\' then "\\\\"
  else if c = '\n' then "\\n"
  else if c = '\r' then "\\r"
  else if c = '\t' then "\\t"
  else if c = '\x00' then "\\0"
  else if Printable.isShown c then "".push c
  else "\\u\x7b" ++ Hex.ofNat c.toNat ++ "\x7d"

/-- the quoted form of a text -/
def quote (s : String) : String :=
  s.toList.foldl (fun q c => q ++ escape c) "\"" ++ "\""

end RingTape.Quoted
