import Partitura.Number.Numeral
import Partitura.Text.Quoted
import Partitura.Toml.Basic

/-!
# Texts of TOML

A text stands between double quotes, in which a backslash begins an escape, or
between single quotes, in which nothing does; and either kind of quote stands
three times where the text has several lines. A line feed right after three
quotes is not part of the text, and neither are a backslash at the end of a line
and the blanks after it. A text is written in the first form in which nothing
has to be escaped, and escaped where there is none.
-/

namespace Partitura.Toml

/-- Characters that can stand in a line: a tab, and all that are no controls. -/
def isLineChar (c : Char) : Bool := c == '\t' || (0x20 ≤ c.toNat && c.toNat != 0x7F)

def isSpace (c : Char) : Bool := c == ' ' || c == '\t'

def lineBreak? : List Char → Option (List Char)
  | '\n' :: rest => some rest
  | '\r' :: '\n' :: rest => some rest
  | _ => none

/-! ## Reading -/

def codePoint? (digits : List Char) : Option Char := do
  let n ← Number.valueInBase? 16 digits
  if n.isValidChar then some (Char.ofNat n) else none

def numericEscape? (width : Nat) (cs : List Char) : Option (Char × List Char) := do
  if (cs.take width).length = width then some (← codePoint? (cs.take width), cs.drop width)
  else none

def escape? : List Char → Option (Char × List Char)
  | [] => none
  | c :: rest =>
    match c with
    | 'b' => some (Char.ofNat 8, rest)
    | 't' => some ('\t', rest)
    | 'n' => some ('\n', rest)
    | 'f' => some (Char.ofNat 12, rest)
    | 'r' => some ('\r', rest)
    | '"' => some ('"', rest)
    | '\\' => some ('\\', rest)
    | 'u' => numericEscape? 4 rest
    | 'U' => numericEscape? 8 rest
    | _ => none

def basicText? : Nat → List Char → Option (List Char × List Char)
  | 0, _ => none
  | _, [] => none
  | fuel + 1, c :: rest =>
    if c = '"' then some ([], rest)
    else if c = '\\' then do
      let (x, rest) ← escape? rest
      let (text, rest) ← basicText? fuel rest
      some (x :: text, rest)
    else if isLineChar c then do
      let (text, rest) ← basicText? fuel rest
      some (c :: text, rest)
    else none

def literalText? (cs : List Char) : Option (List Char × List Char) :=
  match cs.dropWhile (· != '\'') with
  | [] => none
  | _ :: rest =>
    let text := cs.takeWhile (· != '\'')
    if text.all isLineChar then some (text, rest) else none

/-- The quotes that belong to a text before three quotes end it: at most two of them. -/
def closing? (quote : Char) (cs : List Char) : Option (List Char × List Char) :=
  let count := (cs.takeWhile (· == quote)).length
  if count < 3 then none
  else
    let own := min (count - 3) 2
    some (List.replicate own quote, cs.drop (own + 3))

/-- The text after blanks, if they end a line, and after all blanks and line ends then. -/
def afterContinuation? : List Char → Option (List Char) := fun cs => do
  let rest ← lineBreak? (cs.dropWhile isSpace)
  some (skip rest)
where
  skip : List Char → List Char
    | [] => []
    | '\r' :: '\n' :: rest => skip rest
    | c :: rest => if isSpace c || c == '\n' then skip rest else c :: rest

def longBasicText? : Nat → List Char → Option (List Char × List Char)
  | 0, _ => none
  | fuel + 1, cs =>
    match closing? '"' cs with
    | some (quotes, rest) => some (quotes, rest)
    | none =>
      match cs with
      | [] => none
      | c :: rest =>
        if c = '\\' then
          match afterContinuation? rest with
          | some rest => longBasicText? fuel rest
          | none => do
            let (x, rest) ← escape? rest
            let (text, rest) ← longBasicText? fuel rest
            some (x :: text, rest)
        else
          match lineBreak? cs with
          | some rest => do
            let (text, rest) ← longBasicText? fuel rest
            some ('\n' :: text, rest)
          | none =>
            if isLineChar c then do
              let (text, rest) ← longBasicText? fuel rest
              some (c :: text, rest)
            else none

def longLiteralText? : Nat → List Char → Option (List Char × List Char)
  | 0, _ => none
  | fuel + 1, cs =>
    match closing? '\'' cs with
    | some (quotes, rest) => some (quotes, rest)
    | none =>
      match lineBreak? cs with
      | some rest => do
        let (text, rest) ← longLiteralText? fuel rest
        some ('\n' :: text, rest)
      | none =>
        match cs with
        | [] => none
        | c :: rest =>
          if isLineChar c then do
            let (text, rest) ← longLiteralText? fuel rest
            some (c :: text, rest)
          else none

def dropLineBreak (cs : List Char) : List Char := (lineBreak? cs).getD cs

def shortText? : List Char → Option (String × List Char)
  | '"' :: rest => do
    let (text, rest) ← basicText? (rest.length + 1) rest
    some (String.ofList text, rest)
  | '\'' :: rest => do
    let (text, rest) ← literalText? rest
    some (String.ofList text, rest)
  | _ => none

def text? : List Char → Option (String × List Char)
  | '"' :: '"' :: '"' :: rest => do
    let (text, rest) ← longBasicText? (rest.length + 1) (dropLineBreak rest)
    some (String.ofList text, rest)
  | '\'' :: '\'' :: '\'' :: rest => do
    let (text, rest) ← longLiteralText? (rest.length + 1) (dropLineBreak rest)
    some (String.ofList text, rest)
  | cs => shortText? cs

/-! ## Writing -/

structure Traits where
  hasControl : Bool
  hasBackslash : Bool
  hasLineBreak : Bool
  doubleQuotes : Nat
  singleQuotes : Nat
deriving DecidableEq, Repr

/-- The length of the longest row of a character, a row of some length being before the text. -/
def longestRow (c : Char) : Nat → List Char → Nat
  | n, [] => n
  | n, d :: rest => if d = c then longestRow c (n + 1) rest else max n (longestRow c 0 rest)

def isControl (c : Char) : Bool := c != '\t' && c != '\n' && (c.toNat ≤ 0x1F || c.toNat == 0x7F)

def Traits.ofText (cs : List Char) : Traits where
  hasControl := cs.any isControl
  hasBackslash := cs.contains '\\'
  hasLineBreak := cs.contains '\n'
  doubleQuotes := longestRow '"' 0 cs
  singleQuotes := longestRow '\'' 0 cs

inductive Form where
  | basic | literal | longBasic | longLiteral
deriving DecidableEq, Repr

/-- The first form in which a text can stand as it is, else an escaped one. -/
def Form.ofTraits (t : Traits) : Form :=
  if !t.hasControl && !t.hasBackslash && !t.hasLineBreak && t.doubleQuotes == 0 then basic
  else if !t.hasControl && !t.hasLineBreak && t.singleQuotes == 0 then literal
  else if !t.hasControl && !t.hasBackslash && t.doubleQuotes ≤ 2 then longBasic
  else if !t.hasControl && t.singleQuotes ≤ 2 then longLiteral
  else if t.hasLineBreak then longBasic
  else basic

def Form.quotes : Form → String
  | basic => "\""
  | literal => "'"
  | longBasic => "\"\"\""
  | longLiteral => "'''"

def Form.isLong : Form → Bool
  | longBasic | longLiteral => true
  | basic | literal => false

def hexFour (n : Nat) : String :=
  let digits := (Nat.toDigits 16 n).map Char.toUpper
  String.ofList (List.replicate (4 - digits.length) '0' ++ digits)

def escapedChar (keepsLines : Bool) (c : Char) : String :=
  if c.toNat = 8 then "\\b"
  else if c = '\t' then "\\t"
  else if c = '\n' then (if keepsLines then "\n" else "\\n")
  else if c.toNat = 12 then "\\f"
  else if c = '\r' then "\\r"
  else if c = '\\' then "\\\\"
  else if c.toNat ≤ 0x1F ∨ c.toNat = 0x7F then "\\u" ++ hexFour c.toNat
  else c.toString

/-- A text between double quotes; `free` quotes in a row need no escape, of which some
may stand before the text. -/
def escaped (keepsLines : Bool) (free : Nat) : Nat → List Char → String
  | _, [] => ""
  | row, c :: rest =>
    if c = '"' then
      if row < free then "\"" ++ escaped keepsLines free (row + 1) rest
      else "\\\"" ++ escaped keepsLines free 0 rest
    else escapedChar keepsLines c ++ escaped keepsLines free 0 rest

def Form.body (form : Form) (cs : List Char) : String :=
  match form with
  | basic => escaped false 0 0 cs
  | longBasic => escaped true 2 0 cs
  | literal | longLiteral => String.ofList cs

def quoted (s : String) : String :=
  let traits := Traits.ofText s.toList
  let form := Form.ofTraits traits
  form.quotes ++ (if form.isLong && traits.hasLineBreak then "\n" else "") ++ form.body s.toList
    ++ form.quotes

def isKeyChar (c : Char) : Bool := c.isAlphanum || c == '_' || c == '-'

def isBare (s : String) : Bool := !s.isEmpty && s.toList.all isKeyChar

def keyText (s : String) : String := if isBare s then s else quoted s

def Form.onLine (t : Traits) : Form :=
  if Form.ofTraits t == literal then literal else basic

def keyOnLine (s : String) : String :=
  let form := Form.onLine (Traits.ofText s.toList)
  if isBare s then s else form.quotes ++ form.body s.toList ++ form.quotes

end Partitura.Toml
