import Partitura.Number.Decimal
import Partitura.Number.Scalar

/-!
# Exact numbers

The rational numbers as a number type for times, beats and levels: every
operation is exact, every value is finite, and rounding is rounding of the value
itself. A value whose denominator divides a power of ten is written as that
decimal, any other as a fraction.
-/

namespace Partitura.Number

/-- The whole number nearest to a rational, a half going away from zero. -/
def roundHalfAway (x : Rat) : Int :=
  let size := (2 * x.num.natAbs + x.den) / (2 * x.den)
  if x.num < 0 then -(size : Int) else size

def wholeOfRat (x : Rat) : Int := Int.tdiv x.num x.den

/-- The least number of places after which the decimal expansion ends, if it is at most `fuel`. -/
def places? (x : Rat) : Nat → Option Nat
  | 0 => if x.den = 1 then some 0 else none
  | fuel + 1 => if x.den = 1 then some 0 else (places? (x * 10) fuel).map (· + 1)

/-- The text of a rational in a layout, or as a fraction. -/
def Layout.textOfRat (layout : Layout) (x : Rat) : String :=
  let sign := if x < 0 then "-" else ""
  match places? x x.den with
  | some n =>
    let digits := (x * (Nat.pow 10 n : Nat)).num.natAbs
    sign ++ layout.write (Decimal.stripZeros (n + 400) ⟨digits, -(n : Int)⟩)
  | none => sign ++ toString x.num.natAbs ++ "/" ++ toString x.den

def fixedTextOfRat (places : Nat) (x : Rat) : String :=
  let sign := if x < 0 then "-" else ""
  sign ++ writeFixed places (roundQuotient (x.num.natAbs * Nat.pow 10 places) x.den .even)

def exactDecimalValue (digits : Nat) (exponent : Int) : Rat :=
  if exponent < 0 then (digits : Rat) / (Nat.pow 10 exponent.natAbs : Nat)
  else ((digits * Nat.pow 10 exponent.toNat : Nat) : Rat)

instance : Scalar Rat where
  decLt := fun _ _ => inferInstance
  decLe := fun _ _ => inferInstance
  ofInt := fun n => (n : Rat)
  ofDecimal := exactDecimalValue
  isFinite := fun _ => true
  isUndefined := fun _ => false
  floor := fun x => (x.floor : Rat)
  ceil := fun x => (x.ceil : Rat)
  round := fun x => (roundHalfAway x : Rat)
  sortsBefore := fun x y => decide (x ≤ y)
  wholePart := wholeOfRat
  wholeWithin := fun lo hi x => max lo (min hi (wholeOfRat x))
  plainText := Layout.plain.textOfRat
  documentText := Layout.document.textOfRat
  settingText := Layout.setting.textOfRat
  fixedText := fixedTextOfRat
  infinity? := fun _ => none
  undefined? := none

end Partitura.Number
