import Partitura.Toml.Walk

/-!
# How far numbers and moments can be read

A number that has been read to its end may still be too great. A point, an exponent and
an underscore are final once they have been read, and so are the parts of a date after
its year and those of a time after its hour.
-/

namespace Partitura.Toml

open Walk

/-! ## Numbers -/

/-- A walk over digits that satisfy a test, after the first one, with single underscores
between them. -/
def walkMoreDigits (isDigit : Char → Bool) : List Char → Walk
  | '_' :: rest =>
    match rest with
    | d :: later =>
      if isDigit d then walkMoreDigits isDigit later
      else halt rest (Complaint.bare.wanting [.digit])
    | [] => halt [] (Complaint.bare.wanting [.digit])
  | c :: rest => if isDigit c then walkMoreDigits isDigit rest else .ok (c :: rest)
  | [] => .ok []

def walkDigits (isDigit : Char → Bool) (cs : List Char) : Walk := do
  walkMoreDigits isDigit (← walkChar isDigit cs)

def isSign (c : Char) : Bool := c == '+' || c == '-'

def skipSign (cs : List Char) : List Char := (Number.splitSign cs).2

def walkWhole (cs : List Char) : Walk :=
  named .integer <|
    match skipSign cs with
    | '0' :: rest => .ok rest
    | rest => walkDigits Char.isDigit rest

def walkExponent : List Char → Walk
  | c :: rest =>
    if c = 'e' ∨ c = 'E' then (walkDigits Char.isDigit (skipSign rest)).final
    else .ok (c :: rest)
  | [] => .ok []

def walkFraction : List Char → Walk
  | '.' :: rest => do
    walkExponent (← ((walkDigits Char.isDigit rest).wanting [.digit]).final)
  | c :: rest => if c = 'e' ∨ c = 'E' then walkExponent (c :: rest) else stop (c :: rest) .bare
  | [] => stop [] .bare

def walkWord (word : String) (cs : List Char) : Walk :=
  if word.toList.isPrefixOf cs then .ok (cs.drop word.length) else stop cs .bare

def passed (cs rest : List Char) : List Char := cs.take (cs.length - rest.length)

/-- A walk over a number with a point, an exponent or a name, which must be finite unless
it is named otherwise. -/
def walkDecimal (α : Type) [Scalar α] (cs : List Char) : Walk :=
  named .decimal <|
    orElse
      (do
        let rest ← walkFraction (← walkWhole cs)
        if (float? (passed cs rest) : Option α).isSome then .ok rest else halt cs .bare)
      fun _ =>
        let size := skipSign cs
        orElse (walkWord "inf" size) fun _ => walkWord "nan" size

def fitting (cs rest : List Char) : Walk :=
  if (integer? (passed cs rest)).isSome then .ok rest
  else halt cs (.ofCause (if cs.head? == some '-' then .tooSmall else .tooLarge))

def walkBased (subject : Subject) (base : Nat) (cs : List Char) : Walk := do
  let isDigit := fun c => (Number.hexValue? c).any (· < base)
  fitting cs (← ((walkDigits isDigit (cs.drop 2)).named subject).final)

def walkInteger (cs : List Char) : Walk :=
  match cs with
  | '0' :: 'x' :: _ => walkBased .hexadecimal 16 cs
  | '0' :: 'o' :: _ => walkBased .octal 8 cs
  | '0' :: 'b' :: _ => walkBased .binary 2 cs
  | cs => do fitting cs (← walkWhole cs)

/-! ## Moments -/

def walkBounded (width lo hi : Nat) (cs : List Char) : Walk :=
  match Number.natural? (cs.take width) with
  | none => stop cs .bare
  | some n =>
    if (cs.take width).length < width then stop cs .bare
    else if n < lo ∨ hi < n then stop cs (.ofCause .outOfRange)
    else .ok (cs.drop width)

def walkMark (c : Char) : List Char → Walk := walkChar (· == c)

def firstTwo (cs : List Char) : Nat := Number.valueOfDigits 0 (cs.take 2)

def walkDate (cs : List Char) : Walk := do
  let year := Number.valueOfDigits 0 (cs.take 4)
  let month ← walkMark '-' (← walkBounded 4 0 9999 cs)
  final do
    let day ← walkMark '-' (← walkBounded 2 1 12 month)
    let rest ← walkBounded 2 1 31 day
    if firstTwo day ≤ daysInMonth year (firstTwo month) then .ok rest
    else halt day (.ofCause .outOfRange)

def skipFraction : List Char → List Char
  | '.' :: rest =>
    if (rest.takeWhile Char.isDigit).isEmpty then '.' :: rest else rest.dropWhile Char.isDigit
  | cs => cs

def walkTime (cs : List Char) : Walk := do
  let minute ← walkMark ':' (← walkBounded 2 0 23 cs)
  final do
    let second ← walkMark ':' (← walkBounded 2 0 59 minute)
    .ok (skipFraction (← walkBounded 2 0 60 second))

def walkOffset : List Char → Walk
  | c :: rest =>
    if c = 'Z' ∨ c = 'z' then .ok rest
    else if isSign c then
      named .offset <| final do walkBounded 2 0 59 (← walkMark ':' (← walkBounded 2 0 23 rest))
    else .ok (c :: rest)
  | [] => .ok []

def walkTimeAfterDate (cs : List Char) : Walk :=
  match cs with
  | c :: rest =>
    if c = 'T' ∨ c = 't' ∨ c = ' ' then
      orElse (do walkOffset (← walkTime rest)) fun _ => .ok cs
    else .ok cs
  | [] => .ok []

def walkMoment (cs : List Char) : Walk :=
  orElse (named .moment do walkTimeAfterDate (← walkDate cs)) fun _ => (walkTime cs).named .time

def walkNumeric (α : Type) [Scalar α] (cs : List Char) : Walk :=
  orElse (walkMoment cs) fun _ => orElse (walkDecimal α cs) fun _ => walkInteger cs

end Partitura.Toml
