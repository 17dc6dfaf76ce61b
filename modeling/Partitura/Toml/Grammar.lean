import Partitura.Toml.Quoted

/-!
# The grammar of TOML

A document is a row of items on lines of their own: pairs of a key and a value,
heads of tables, and heads of tables that are elements of lists. A key may have
several parts with points between them. What the items mean together is another
matter; here a table in braces is still the row of its pairs. Values may stand in
one another, and keys may have parts, up to a set count.
-/

namespace Partitura.Toml

inductive Written (α : Type) where
  | plain (v : Toml α)
  | list (items : List (Written α))
  | braces (pairs : List (List String × Written α))

inductive Item (α : Type) where
  | pair (key : List String) (value : Written α)
  | head (key : List String)
  | listHead (key : List String)

/-- Values stand in at most so many others, and keys have at most so many parts. -/
def maxDepth : Nat := 79

def skipSpace : List Char → List Char := List.dropWhile isSpace

def isCommentChar (c : Char) : Bool := isLineChar c

def skipComment : List Char → List Char
  | '#' :: rest => rest.dropWhile isCommentChar
  | cs => cs

def lineEnd? (cs : List Char) : Option (List Char) :=
  match skipComment (skipSpace cs) with
  | [] => some []
  | rest => lineBreak? rest

def skipLines : Nat → List Char → List Char
  | 0, cs => cs
  | fuel + 1, cs =>
    let rest := skipSpace cs
    match lineBreak? (skipComment rest) with
    | some rest => skipLines fuel rest
    | none => rest

/-! ## Keys -/

def keyPart? (cs : List Char) : Option (String × List Char) :=
  match shortText? cs with
  | some part => some part
  | none =>
    let name := cs.takeWhile isKeyChar
    if name.isEmpty then none else some (String.ofList name, cs.dropWhile isKeyChar)

def keyParts? : Nat → List Char → Option (List String × List Char)
  | 0, _ => none
  | fuel + 1, cs => do
    let (part, rest) ← keyPart? (skipSpace cs)
    match skipSpace rest with
    | '.' :: rest => do
      let (parts, rest) ← keyParts? fuel rest
      some (part :: parts, rest)
    | rest => some ([part], rest)

def key? : List Char → Option (List String × List Char) := keyParts? maxDepth

/-! ## Numbers -/

/-- Digits that satisfy a test, with single underscores between them, which are left out. -/
def groupedDigits? (isDigit : Char → Bool) : List Char → Option (List Char)
  | [] => none
  | [c] => if isDigit c then some [c] else none
  | c :: '_' :: rest =>
    if isDigit c then (groupedDigits? isDigit rest).map (c :: ·) else none
  | c :: rest => if isDigit c then (groupedDigits? isDigit rest).map (c :: ·) else none

/-- Decimal digits without a zero before others. -/
def wholeDigits? (cs : List Char) : Option (List Char) := do
  let digits ← groupedDigits? Char.isDigit cs
  match digits with
  | '0' :: _ :: _ => none
  | _ => some digits

def bounded? (n : Int) : Option Int := if Json.isInt64 n then some n else none

def basedInteger? (base : Nat) (cs : List Char) : Option Int := do
  let digits ← groupedDigits? (fun c => (Number.hexValue? c).any (· < base)) cs
  bounded? (← Number.valueInBase? base digits)

def integer? : List Char → Option Int
  | '0' :: 'x' :: rest => basedInteger? 16 rest
  | '0' :: 'o' :: rest => basedInteger? 8 rest
  | '0' :: 'b' :: rest => basedInteger? 2 rest
  | cs => do
    let (negative, digits) := Number.splitSign cs
    let n : Int := Number.valueOfDigits 0 (← wholeDigits? digits)
    bounded? (if negative then -n else n)

def isGroupChar (c : Char) : Bool := c.isDigit || c == '_'

def exponent? : List Char → Option Int
  | [] => some 0
  | c :: rest => do
    if c = 'e' ∨ c = 'E' then
      let (negative, digits) := Number.splitSign rest
      let n : Int := Number.valueOfDigits 0 (← groupedDigits? Char.isDigit digits)
      some (if negative then -n else n)
    else none

def decimal? (cs : List Char) : Option (Nat × Int) := do
  let whole ← wholeDigits? (cs.takeWhile isGroupChar)
  match cs.dropWhile isGroupChar with
  | [] => none
  | '.' :: rest => do
    let fraction ← groupedDigits? Char.isDigit (rest.takeWhile isGroupChar)
    let exponent ← exponent? (rest.dropWhile isGroupChar)
    some (Number.valueOfDigits 0 (whole ++ fraction), exponent - fraction.length)
  | rest => do some (Number.valueOfDigits 0 whole, ← exponent? rest)

variable {α : Type} [Scalar α]

/-- The number with a point, an exponent or a name that a whole text names. None is so
great that it has no finite value, unless it is negative. -/
def float? (cs : List Char) : Option α :=
  let (negative, size) := Number.splitSign cs
  if size = "inf".toList then Scalar.infinity? negative
  else if size = "nan".toList then Scalar.undefined?
  else do
    let (digits, exponent) ← decimal? size
    let x : α := Scalar.ofDecimal digits exponent
    if negative then some (-x) else if Scalar.isFinite x then some x else none

def word? (cs : List Char) : Option (Toml α) :=
  if cs = "true".toList then some (.bool true)
  else if cs = "false".toList then some (.bool false)
  else match moment? cs with
    | some m => some (.moment m)
    | none =>
      match (float? cs : Option α) with
      | some x => some (.float x)
      | none => (integer? cs).map .integer

def endsWord (c : Char) : Bool :=
  c == ' ' || c == '\t' || c == '\n' || c == '\r' || c == '#' || c == ',' || c == ']' || c == '\x7d'

def takeWord : List Char → List Char := List.takeWhile fun c => !endsWord c

def dropWord : List Char → List Char := List.dropWhile fun c => !endsWord c

/-- A value other than a text, a list or a table; a time may stand after a date and a space. -/
def simpleValue? (cs : List Char) : Option (Toml α × List Char) := do
  let v : Toml α ← word? (takeWord cs)
  let rest := dropWord cs
  match v, rest with
  | .moment (.date d), ' ' :: after =>
    match dateWithTime? d (takeWord after) with
    | some m => some (.moment m, dropWord after)
    | none => some (v, rest)
  | v, rest => some (v, rest)

/-! ## Values and items -/

def listItems? (value? : List Char → Option (Written α × List Char)) :
    Nat → List Char → Option (List (Written α) × List Char)
  | 0, _ => none
  | fuel + 1, cs =>
    match skipLines cs.length cs with
    | ']' :: rest => some ([], rest)
    | cs => do
      let (v, rest) ← value? cs
      match skipLines rest.length rest with
      | ']' :: rest => some ([v], rest)
      | ',' :: rest => do
        let (vs, rest) ← listItems? value? fuel rest
        some (v :: vs, rest)
      | _ => none

def pair? (value? : List Char → Option (Written α × List Char)) (cs : List Char) :
    Option ((List String × Written α) × List Char) := do
  let (key, rest) ← key? cs
  let rest ← after? '=' rest
  let (v, rest) ← value? (skipSpace rest)
  some ((key, v), rest)

def bracePairs? (value? : List Char → Option (Written α × List Char)) :
    Nat → List Char → Option (List (List String × Written α) × List Char)
  | 0, _ => none
  | fuel + 1, cs => do
    let (p, rest) ← pair? value? cs
    match skipSpace rest with
    | '\x7d' :: rest => some ([p], rest)
    | ',' :: rest => do
      let (ps, rest) ← bracePairs? value? fuel rest
      some (p :: ps, rest)
    | _ => none

def value? : Nat → List Char → Option (Written α × List Char)
  | _, [] => none
  | depth, c :: rest =>
    if c = '"' ∨ c = '\'' then do
      let (s, rest) ← text? (c :: rest)
      some (.plain (.string s), rest)
    else if c = '[' then
      match depth with
      | 0 => none
      | depth + 1 => do
        let (vs, rest) ← listItems? (value? depth) (rest.length + 1) rest
        some (.list vs, rest)
    else if c = '\x7b' then
      match depth with
      | 0 => none
      | depth + 1 =>
        match skipSpace rest with
        | '\x7d' :: rest => some (.braces [], rest)
        | _ => do
          let (ps, rest) ← bracePairs? (value? depth) (rest.length + 1) rest
          some (.braces ps, rest)
    else do
      let (v, rest) ← simpleValue? (c :: rest)
      some (.plain v, rest)

def item? : List Char → Option (Item α × List Char)
  | '[' :: '[' :: rest => do
    let (key, rest) ← key? rest
    let rest ← after? ']' (← after? ']' rest)
    some (.listHead key, ← lineEnd? rest)
  | '[' :: rest => do
    let (key, rest) ← key? rest
    some (.head key, ← lineEnd? (← after? ']' rest))
  | cs => do
    let ((key, v), rest) ← pair? (value? maxDepth) cs
    some (.pair key v, ← lineEnd? rest)

structure Placed (α : Type) where
  text : List Char
  item : Item α

/-- The items of a text up to the first one that cannot be read, and the text from
there on, if there is such an item. -/
def items : Nat → List Char → List (Placed α) × Option (List Char)
  | 0, _ => ([], none)
  | fuel + 1, cs =>
    match skipLines cs.length cs with
    | [] => ([], none)
    | cs =>
      match lineEnd? cs with
      | some rest => items fuel rest
      | none =>
        match item? cs with
        | some (item, rest) =>
          let (later, stop) := items fuel rest
          (⟨cs, item⟩ :: later, stop)
        | none => ([], some cs)

end Partitura.Toml
