import Partitura.Text.Unseen

/-!
# Texts quoted in messages

A quoted text stands between double quotes. Quotes, backslashes and characters
without a shape of their own are escaped: a few with a letter, the others with their code
point in hexadecimal.
-/

namespace Partitura.Text

def hex (n : Nat) : String := String.ofList (Nat.toDigits 16 n)

def quoteChar (c : Char) : String :=
  if c.toNat = 0 then "\\0"
  else if c = '\t' then "\\t"
  else if c = '\r' then "\\r"
  else if c = '\n' then "\\n"
  else if c = '"' then "\\\""
  else if c = '\\' then "\\\\"
  else if isUnseen c then "\\u\x7b" ++ hex c.toNat ++ "\x7d"
  else c.toString

def quote (s : String) : String := "\"" ++ String.join (s.toList.map quoteChar) ++ "\""

end Partitura.Text
