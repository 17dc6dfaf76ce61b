import Partitura.Json.Basic

/-!
# Writing JSON

Strings escape the quote, the backslash and the control characters below space;
all else stands for itself. The compact form has no blanks, the indented form
puts every entry on a line of its own, two spaces further in.
-/

namespace Partitura.Json

variable {α : Type}

def hexDigit (n : Nat) : Char := if n < 10 then Char.ofNat (48 + n) else Char.ofNat (87 + n)

def hexByte (n : Nat) : String := String.ofList [hexDigit (n / 16 % 16), hexDigit (n % 16)]

def escapeChar (c : Char) : String :=
  if c = '"' then "\\\""
  else if c = '\\' then "\\\\"
  else if c = '\n' then "\\n"
  else if c = '\r' then "\\r"
  else if c = '\t' then "\\t"
  else if c.toNat = 8 then "\\b"
  else if c.toNat = 12 then "\\f"
  else if c.toNat < 32 then "\\u00" ++ hexByte c.toNat
  else c.toString

def quoted (s : String) : String := "\"" ++ String.join (s.toList.map escapeChar) ++ "\""

def atom [Scalar α] : Json α → String
  | .null => "null"
  | .bool b => if b then "true" else "false"
  | .int n => toString n
  | .real x => if Scalar.isFinite x then Scalar.documentText x else "null"
  | .str s => quoted s
  | .arr _ => "[]"
  | .obj _ => "\x7b\x7d"

mutual

def compact [Scalar α] : Json α → String
  | .arr items => "[" ++ compactItems items ++ "]"
  | .obj fields => "\x7b" ++ compactFields fields ++ "\x7d"
  | v => v.atom

def compactItems [Scalar α] : List (Json α) → String
  | [] => ""
  | [v] => compact v
  | v :: rest => compact v ++ "," ++ compactItems rest

def compactFields [Scalar α] : List (String × Json α) → String
  | [] => ""
  | [(k, v)] => quoted k ++ ":" ++ compact v
  | (k, v) :: rest => quoted k ++ ":" ++ compact v ++ "," ++ compactFields rest

end

def indent (depth : Nat) : String := String.ofList (List.replicate (2 * depth) ' ')

mutual

def indented [Scalar α] (depth : Nat) : Json α → String
  | .arr [] => "[]"
  | .arr items => "[\n" ++ indentedItems (depth + 1) items ++ "\n" ++ indent depth ++ "]"
  | .obj [] => "\x7b\x7d"
  | .obj fields =>
    "\x7b\n" ++ indentedFields (depth + 1) fields ++ "\n" ++ indent depth ++ "\x7d"
  | v => v.atom

def indentedItems [Scalar α] (depth : Nat) : List (Json α) → String
  | [] => ""
  | [v] => indent depth ++ indented depth v
  | v :: rest => indent depth ++ indented depth v ++ ",\n" ++ indentedItems depth rest

def indentedFields [Scalar α] (depth : Nat) : List (String × Json α) → String
  | [] => ""
  | [(k, v)] => indent depth ++ quoted k ++ ": " ++ indented depth v
  | (k, v) :: rest =>
    indent depth ++ quoted k ++ ": " ++ indented depth v ++ ",\n" ++ indentedFields depth rest

end

def pretty [Scalar α] (v : Json α) : String := v.indented 0

end Partitura.Json
