import Partitura.Json.Basic
import Partitura.Number.Numeral

/-!
# Reading JSON

The grammar is strict: no comments, no trailing commas, no leading zeros or
signs, no raw control characters in strings, no unpaired surrogates. A repeated
key keeps its first place and takes its last value. Lists and objects may stand
in one another to a set depth. A number without point and exponent that fits 64
bits, signed or unsigned, is an integer; `-0` and every other number is a
scalar, and one beyond all finite values is a fault.

A fault is reported with the line and column it was noticed at, both counted in
bytes. It lies some bytes behind the start of `Failure.rest`: none where what is wrong
has been passed, and one where it was noticed by looking ahead.
-/

namespace Partitura.Json

inductive Fault where
  | endInList | endInObject | endInString | endInValue
  | expectedColon | expectedListEnd | expectedObjectEnd | expectedIdent | expectedValue
  | invalidEscape | invalidNumber | numberOutOfRange | controlCharacter
  | keyNotString | loneSurrogate | endOfHexEscape | trailingComma | trailingCharacters
  | tooDeep
deriving DecidableEq, Repr

def Fault.message : Fault → String
  | .endInList => "EOF while parsing a list"
  | .endInObject => "EOF while parsing an object"
  | .endInString => "EOF while parsing a string"
  | .endInValue => "EOF while parsing a value"
  | .expectedColon => "expected `:`"
  | .expectedListEnd => "expected `,` or `]`"
  | .expectedObjectEnd => "expected `,` or `\x7d`"
  | .expectedIdent => "expected ident"
  | .expectedValue => "expected value"
  | .invalidEscape => "invalid escape"
  | .invalidNumber => "invalid number"
  | .numberOutOfRange => "number out of range"
  | .controlCharacter => "control character (\\u0000-\\u001F) found while parsing a string"
  | .keyNotString => "key must be a string"
  | .loneSurrogate => "lone leading surrogate in hex escape"
  | .endOfHexEscape => "unexpected end of hex escape"
  | .trailingComma => "trailing comma"
  | .trailingCharacters => "trailing characters"
  | .tooDeep => "recursion limit exceeded"

/-- A fault, a text that was left when it was noticed, and how many bytes of it had been
passed, if it has so many. -/
structure Failure where
  fault : Fault
  rest : List Char
  further : Nat

def failHere {β : Type} (fault : Fault) (rest : List Char) : Except Failure β :=
  .error ⟨fault, rest, 0⟩

def failAhead {β : Type} (fault : Fault) (rest : List Char) : Except Failure β :=
  .error ⟨fault, rest, 1⟩

def byteLength (cs : List Char) : Nat := cs.foldl (fun n c => n + c.utf8Size) 0

def isSpace (c : Char) : Bool := c == ' ' || c == '\n' || c == '\t' || c == '\r'

def skipSpace : List Char → List Char := List.dropWhile isSpace

/-- Four hexadecimal digits, for which any four bytes are taken at first. -/
def hexQuad (cs : List Char) : Except Failure (Nat × List Char) :=
  if byteLength (cs.take 4) < 4 then failHere .endInString []
  else
    match (cs.take 4).mapM Number.hexValue? with
    | some [w, x, y, z] => .ok (((w * 16 + x) * 16 + y) * 16 + z, cs.drop 4)
    | _ => .error ⟨.invalidEscape, cs, 4⟩

/-- The character of a hexadecimal escape, whose letter has been read; a pair of
surrogates names one character. -/
def hexEscape (cs : List Char) : Except Failure (Char × List Char) := do
  let (n, rest) ← hexQuad cs
  if 0xDC00 ≤ n ∧ n ≤ 0xDFFF then failHere .loneSurrogate rest
  else if n < 0xD800 ∨ 0xDBFF < n then .ok (Char.ofNat n, rest)
  else match rest with
    | [] => failHere .endInString []
    | ['\\'] => failHere .endInString []
    | '\\' :: 'u' :: after =>
      let (m, rest) ← hexQuad after
      if m < 0xDC00 ∨ 0xDFFF < m then failHere .loneSurrogate rest
      else .ok (Char.ofNat ((n - 0xD800) * 1024 + (m - 0xDC00) + 0x10000), rest)
    | '\\' :: after => failAhead .endOfHexEscape after
    | after => failAhead .endOfHexEscape after

def escape : List Char → Except Failure (Char × List Char)
  | [] => failHere .endInString []
  | c :: rest =>
    match c with
    | '"' => .ok ('"', rest)
    | '\\' => .ok ('\\', rest)
    | '/' => .ok ('/', rest)
    | 'b' => .ok (Char.ofNat 8, rest)
    | 'f' => .ok (Char.ofNat 12, rest)
    | 'n' => .ok ('\n', rest)
    | 'r' => .ok ('\r', rest)
    | 't' => .ok ('\t', rest)
    | 'u' => hexEscape rest
    | _ => failAhead .invalidEscape (c :: rest)

def string : Nat → List Char → List Char → Except Failure (String × List Char)
  | _, _, [] => failHere .endInString []
  | 0, _, rest => failHere .endInString rest
  | fuel + 1, read, c :: rest =>
    if c = '"' then .ok (String.ofList read.reverse, rest)
    else if c = '\\' then do
      let (c, rest) ← escape rest
      string fuel (c :: read) rest
    else if c.toNat < 32 then failHere .controlCharacter rest
    else string fuel (c :: read) rest

def ident : List Char → List Char → Except Failure (List Char)
  | [], rest => .ok rest
  | _ :: _, [] => failHere .endInValue []
  | w :: name, c :: rest =>
    if c = w then ident name rest else failAhead .expectedIdent (c :: rest)

variable {α : Type} [Scalar α]

/-- The number with these digits and decimal exponent, if it is finite. -/
def scaled (negative : Bool) (digits : Nat) (exponent : Int) (rest : List Char) :
    Except Failure (Json α × List Char) :=
  let size : α := Scalar.ofDecimal digits exponent
  if Scalar.isFinite size then .ok (.real (if negative then -size else size), rest)
  else failHere .numberOutOfRange rest

def maxExponent : Nat := 2147483647

def afterTooGreat (cs : List Char) : List Char :=
  let digits := cs.takeWhile Char.isDigit
  let count := (List.range digits.length).find? fun n =>
    decide (maxExponent < Number.valueOfDigits 0 (digits.take (n + 1)))
  cs.drop (count.getD digits.length + 1)

def exponent (negative : Bool) (digits : Nat) (scale : Int) (cs : List Char) :
    Except Failure (Json α × List Char) :=
  let (down, power) := Number.splitSign cs
  match power with
  | [] => failHere .endInValue []
  | c :: after =>
    if c.isDigit then
      let n := Number.valueOfDigits 0 (power.takeWhile Char.isDigit)
      if maxExponent < n ∧ digits ≠ 0 ∧ !down then
        failHere .numberOutOfRange (afterTooGreat power)
      else
        scaled negative digits (scale + (if down then -(n : Int) else n))
          (power.dropWhile Char.isDigit)
    else failAhead .invalidNumber (c :: after)

def afterWhole (negative : Bool) (digits : Nat) : List Char → Except Failure (Json α × List Char)
  | '.' :: cs =>
    let fraction := cs.takeWhile Char.isDigit
    let rest := cs.dropWhile Char.isDigit
    if fraction.isEmpty then
      failAhead (if cs.isEmpty then .endInValue else .invalidNumber) cs
    else
      let digits := Number.valueOfDigits digits fraction
      let scale : Int := -(fraction.length : Int)
      match rest with
      | 'e' :: after => exponent negative digits scale after
      | 'E' :: after => exponent negative digits scale after
      | _ => scaled negative digits scale rest
  | 'e' :: cs => exponent negative digits 0 cs
  | 'E' :: cs => exponent negative digits 0 cs
  | cs =>
    if negative then
      if digits = 0 ∨ 0x8000000000000000 < digits then scaled true digits 0 cs
      else .ok (.int (-digits), cs)
    else if digits ≤ 0xFFFFFFFFFFFFFFFF then .ok (.int digits, cs)
    else scaled false digits 0 cs

def number (negative : Bool) : List Char → Except Failure (Json α × List Char)
  | [] => failHere .endInValue []
  | c :: rest =>
    if c = '0' then
      match rest with
      | d :: _ => if d.isDigit then failAhead .invalidNumber rest else afterWhole negative 0 rest
      | [] => afterWhole negative 0 rest
    else if c.isDigit then
      afterWhole negative (Number.valueOfDigits 0 ((c :: rest).takeWhile Char.isDigit))
        ((c :: rest).dropWhile Char.isDigit)
    else failAhead .invalidNumber (c :: rest)

mutual

/-- A value, blanks before it skipped; `depth` counts the lists and objects that may still open. -/
def value : Nat → Nat → List Char → Except Failure (Json α × List Char)
  | 0, _, cs => failHere .tooDeep cs
  | fuel + 1, depth, cs =>
    match skipSpace cs with
    | [] => failAhead .endInValue []
    | 'n' :: rest => do .ok (.null, ← ident ['u', 'l', 'l'] rest)
    | 't' :: rest => do .ok (.bool true, ← ident ['r', 'u', 'e'] rest)
    | 'f' :: rest => do .ok (.bool false, ← ident ['a', 'l', 's', 'e'] rest)
    | '-' :: rest => number true rest
    | '"' :: rest => do
      let (s, rest) ← string (rest.length + 1) [] rest
      .ok (.str s, rest)
    | '[' :: rest =>
      match depth with
      | 0 => failAhead .tooDeep ('[' :: rest)
      | inner + 1 =>
        match skipSpace rest with
        | ']' :: rest => .ok (.arr [], rest)
        | [] => failAhead .endInList []
        | rest => do
          let (vs, rest) ← items fuel inner rest
          .ok (.arr vs, rest)
    | '\x7b' :: rest =>
      match depth with
      | 0 => failAhead .tooDeep ('\x7b' :: rest)
      | inner + 1 =>
        match skipSpace rest with
        | '\x7d' :: rest => .ok (.obj [], rest)
        | [] => failAhead .endInObject []
        | rest => do
          let (fields, rest) ← members fuel inner [] rest
          .ok (.obj fields, rest)
    | c :: rest =>
      if c.isDigit then number false (c :: rest) else failAhead .expectedValue (c :: rest)

def items : Nat → Nat → List Char → Except Failure (List (Json α) × List Char)
  | 0, _, cs => failHere .tooDeep cs
  | fuel + 1, depth, cs => do
    let (v, rest) ← value fuel depth cs
    match skipSpace rest with
    | ']' :: rest => .ok ([v], rest)
    | ',' :: rest =>
      match skipSpace rest with
      | ']' :: rest => failAhead .trailingComma (']' :: rest)
      | [] => failAhead .endInValue []
      | rest => do
        let (vs, rest) ← items fuel depth rest
        .ok (v :: vs, rest)
    | [] => failAhead .endInList []
    | rest => failAhead .expectedListEnd rest

def members : Nat → Nat → List (String × Json α) → List Char →
    Except Failure (List (String × Json α) × List Char)
  | 0, _, _, cs => failHere .tooDeep cs
  | fuel + 1, depth, fields, cs =>
    match skipSpace cs with
    | '"' :: rest => do
      let (key, rest) ← string (rest.length + 1) [] rest
      match skipSpace rest with
      | ':' :: rest => do
        let (v, rest) ← value fuel depth rest
        let fields := put key v fields
        match skipSpace rest with
        | '\x7d' :: rest => .ok (fields, rest)
        | ',' :: rest =>
          match skipSpace rest with
          | '"' :: rest => members fuel depth fields ('"' :: rest)
          | '\x7d' :: rest => failAhead .trailingComma ('\x7d' :: rest)
          | [] => failAhead .endInValue []
          | rest => failAhead .keyNotString rest
        | [] => failAhead .endInObject []
        | rest => failAhead .expectedObjectEnd rest
      | [] => failAhead .endInObject []
      | rest => failAhead .expectedColon rest
    | rest => failAhead .keyNotString rest

end

def document (depth : Nat) (cs : List Char) : Except Failure (Json α) := do
  let (v, rest) ← value (2 * cs.length + 2) depth cs
  match skipSpace rest with
  | [] => .ok v
  | rest => failAhead .trailingCharacters rest

def positionAt : List Char → Nat → Nat → Nat → Nat × Nat
  | [], _, line, column => (line, column)
  | c :: rest, left, line, column =>
    if left = 0 then (line, column)
    else if left < c.utf8Size then (line, column + left)
    else if c = '\n' then positionAt rest (left - 1) (line + 1) 0
    else positionAt rest (left - c.utf8Size) line (column + c.utf8Size)

def Failure.message (cs : List Char) (failure : Failure) : String :=
  let total := byteLength cs
  let read := total - byteLength failure.rest
  let offset := min total (read + failure.further)
  let (line, column) := positionAt cs offset 1 0
  failure.fault.message ++ " at line " ++ toString line ++ " column " ++ toString column

def documentDepth : Nat := 127

def parse (text : String) : Except String (Json α) :=
  let cs := text.toList
  (document documentDepth cs).mapError (Failure.message cs)

end Partitura.Json
