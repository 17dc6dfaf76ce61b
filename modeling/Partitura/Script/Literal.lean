import Partitura.Number.Scalar
import Partitura.Text.Blank

/-!
# Numbers and identifiers in scripts

A number is a decimal with at most a set count of places and no zeros at its
end. A length in beats that falls on a grid of triplets, and on no binary one,
is a fraction in lowest terms, so that sums of such lengths stay exact. An
identifier starts with a small letter and goes on with letters, digits and
underscores.
-/

namespace Partitura.Script

variable {α : Type} [Scalar α]

/-- A text with a point in it, without the zeros at its end and a point before them. -/
def dropZeros (s : String) : String :=
  let cs := s.toList.reverse.dropWhile (· == '0')
  String.ofList (cs.dropWhile (· == '.')).reverse

/-- A number with at most so many places; what has no finite value is zero. -/
def decimalText (places : Nat) (x : α) : String :=
  if Scalar.isFinite x then
    let text := dropZeros (Scalar.fixedText places x)
    if text = "-0" ∨ text = "" then "0" else text
  else "0"

def numberText (x : α) : String := decimalText 4 x

/-- Whether a number is a multiple of `1 / den`, but for rounding. -/
def isOnGrid (x : α) (den : Nat) : Bool :=
  let scaled := x * Scalar.ofInt den
  decide (Scalar.magnitude (scaled - Scalar.round scaled) < 1e-6)

def tripletGrids : List Nat := [3, 6, 12, 24]

def fractionText (x : α) (den : Nat) : String :=
  let num := Scalar.longWord (Scalar.round (x * Scalar.ofInt den))
  let g := Nat.gcd num den
  toString (num / g) ++ "/" ++ toString (den / g)

def beatsText (x : α) : String :=
  if Scalar.isPositive x && !isOnGrid x 64 then
    match tripletGrids.find? (isOnGrid x) with
    | some den => fractionText x den
    | none => decimalText 6 x
  else decimalText 6 x

/-- A text with an underscore for everything but ASCII letters and digits. -/
def identifierChars (cs : List Char) : List Char :=
  cs.map fun c => if c.isAlphanum then c else '_'

def identifier (raw : String) : String :=
  match identifierChars raw.toList with
  | [] => "x"
  | c :: rest =>
    if c.isUpper then String.ofList (c.toLower :: rest)
    else if c.isLower then String.ofList (c :: rest)
    else String.ofList ('n' :: c :: rest)

end Partitura.Script
