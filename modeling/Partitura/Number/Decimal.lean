/-!
# Decimal numerals and how they are laid out

A decimal is `digits * 10 ^ exponent`. Choosing the digits of a number and
laying them out are two separate steps: this module holds the second one, and
the rounding of a quotient that both steps share. A `Layout` says when a number
is written positionally, whether a whole number keeps a fraction, and how an
exponent is signed.
-/

namespace Partitura.Number

/-- A non-negative number `digits * 10 ^ exponent`. -/
structure Decimal where
  digits : Nat
  exponent : Int
deriving DecidableEq, Repr

inductive Tie where
  | even
  | up
deriving DecidableEq, Repr

def roundQuotient (num den : Nat) (tie : Tie) : Nat :=
  let q := num / den
  match compare (2 * (num % den)) den, tie with
  | .lt, _ => q
  | .gt, _ => q + 1
  | .eq, .up => q + 1
  | .eq, .even => if q % 2 == 0 then q else q + 1

def Decimal.stripZeros : Nat → Decimal → Decimal
  | 0, d => d
  | fuel + 1, d =>
    if d.digits ≠ 0 ∧ d.digits % 10 = 0 then
      stripZeros fuel ⟨d.digits / 10, d.exponent + 1⟩
    else d

structure Layout where
  /-- Whether a number whose leading digit has this exponent is written without one. -/
  positional : Int → Bool
  /-- `12.0` rather than `12`. -/
  wholeFraction : Bool
  /-- `1e+16` rather than `1e16`. -/
  signedExponent : Bool
  tie : Tie

/-- Numbers in documents: the shortest digits, positional from `10 ^ -5` to below
`10 ^ 16`, always with a fraction or an exponent. -/
def Layout.document : Layout where
  positional := fun e => decide (-5 ≤ e ∧ e < 16)
  wholeFraction := true
  signedExponent := true
  tie := .even

/-- Numbers inside texts and messages: no exponent, and no fraction on a whole number. -/
def Layout.plain : Layout where
  positional := fun _ => true
  wholeFraction := false
  signedExponent := false
  tie := .up

/-- Numbers in settings files: an exponent from `10 ^ 16` on and below `10 ^ -4`. -/
def Layout.setting : Layout where
  positional := fun e => decide (-4 ≤ e ∧ e < 16)
  wholeFraction := true
  signedExponent := false
  tie := .up

def zeros (n : Nat) : String := String.ofList (List.replicate n '0')

/-- Digits with the point set after `point` of them; zeros fill the gaps. -/
def placePoint (digits : String) (point : Int) (wholeFraction : Bool) : String :=
  let n := digits.length
  if point ≤ 0 then "0." ++ zeros (-point).toNat ++ digits
  else if (n : Int) ≤ point then
    digits ++ zeros (point.toNat - n) ++ (if wholeFraction then ".0" else "")
  else
    let cs := digits.toList
    String.ofList (cs.take point.toNat) ++ "." ++ String.ofList (cs.drop point.toNat)

def placeExponent (digits : String) (exponent : Int) (signed : Bool) : String :=
  let cs := digits.toList
  let fraction := if cs.length ≤ 1 then "" else "." ++ String.ofList (cs.drop 1)
  let sign := if exponent < 0 then "-" else if signed then "+" else ""
  String.ofList (cs.take 1) ++ fraction ++ "e" ++ sign ++ toString exponent.natAbs

def Layout.write (layout : Layout) (d : Decimal) : String :=
  if d.digits = 0 then (if layout.wholeFraction then "0.0" else "0")
  else
    let digits := toString d.digits
    let point := (digits.length : Int) + d.exponent
    if layout.positional (point - 1) then placePoint digits point layout.wholeFraction
    else placeExponent digits (point - 1) layout.signedExponent

/-- `scaled / 10 ^ places` with exactly that many places after the point. -/
def writeFixed (places scaled : Nat) : String :=
  let digits := toString scaled
  let padded := zeros (places + 1 - digits.length) ++ digits
  let cs := padded.toList
  let whole := String.ofList (cs.take (cs.length - places))
  if places = 0 then whole
  else whole ++ "." ++ String.ofList (cs.drop (cs.length - places))

end Partitura.Number
