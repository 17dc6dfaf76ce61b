import Partitura.Number.Decimal
import Partitura.Number.Scalar

/-!
# Binary floating point: exact value and shortest decimal

A finite value is `mantissa * 2 ^ exponent`, read off its bits. The reals that
round to it form an interval, and its text has the fewest digits of any decimal
in that interval, and of those the nearest: for one digit, two, up to seventeen,
the two neighbours of the value on that decimal grid are tested in exact
arithmetic. Fixed places round the exact value, a half going to the even digit.
-/

namespace Partitura.Number

structure Magnitude where
  mantissa : Nat
  exponent : Int
  /-- The gap to the value below is half the gap to the value above. -/
  narrowBelow : Bool

def Magnitude.ofBits (w : UInt64) : Magnitude :=
  let e := ((w >>> 52) &&& 0x7FF).toNat
  let f := (w &&& 0xFFFFFFFFFFFFF).toNat
  if e = 0 then ⟨f, -1074, false⟩
  else ⟨0x10000000000000 + f, (e : Int) - 1075, f == 0 && decide (1 < e)⟩

def compareScaled (a : Nat) (i : Int) (n : Nat) (j : Int) : Ordering :=
  compare (a * Nat.pow 10 i.toNat * Nat.pow 2 (-j).toNat)
    (n * Nat.pow 2 j.toNat * Nat.pow 10 (-i).toNat)

namespace Magnitude

/-- Whether a decimal lies among the reals that round to this value; the ends of
the interval belong to it when the mantissa is even. -/
def readsBack (x : Magnitude) (d : Decimal) : Bool :=
  let low := if x.narrowBelow then 4 * x.mantissa - 1 else 4 * x.mantissa - 2
  let high := 4 * x.mantissa + 2
  let closed := x.mantissa % 2 == 0
  let above := match compareScaled d.digits d.exponent low (x.exponent - 2) with
    | .gt => true
    | .eq => closed
    | .lt => false
  let below := match compareScaled d.digits d.exponent high (x.exponent - 2) with
    | .lt => true
    | .eq => closed
    | .gt => false
  above && below

/-- A power of ten not above the value by more than two decades, from its binary length. -/
def scaleEstimate (x : Magnitude) : Int :=
  ((x.mantissa.log2 : Int) + x.exponent) * 1233 / 4096 - 1

/-- The least `k` with value below `10 ^ k`, for a value that is not zero. -/
def scale (x : Magnitude) : Int :=
  let k := x.scaleEstimate
  let fits := fun (k : Int) => compareScaled 1 k x.mantissa x.exponent == .gt
  (([k, k + 1, k + 2, k + 3] : List Int).find? fits).getD (k + 4)

def overGrid (x : Magnitude) (grid : Int) : Nat × Nat :=
  (x.mantissa * Nat.pow 2 x.exponent.toNat * Nat.pow 10 (-grid).toNat,
    Nat.pow 2 (-x.exponent).toNat * Nat.pow 10 grid.toNat)

/-- The nearer neighbour of the value on a decimal grid that reads back. -/
def onGrid (x : Magnitude) (tie : Tie) (grid : Int) : Option Decimal :=
  let (num, den) := x.overGrid grid
  let low := num / den
  let lower : Decimal := ⟨low, grid⟩
  let upper : Decimal := ⟨low + 1, grid⟩
  match x.readsBack lower, x.readsBack upper with
  | true, true => some ⟨roundQuotient num den tie, grid⟩
  | true, false => some lower
  | false, true => some upper
  | false, false => none

def exactDecimal (x : Magnitude) : Decimal :=
  if 0 ≤ x.exponent then ⟨x.mantissa * Nat.pow 2 x.exponent.toNat, 0⟩
  else ⟨x.mantissa * Nat.pow 5 (-x.exponent).toNat, x.exponent⟩

/-- The fewest digits that read back, and of those the nearest to the value. -/
def shortest (x : Magnitude) (tie : Tie) : Decimal :=
  if x.mantissa = 0 then ⟨0, 0⟩
  else
    let k := x.scale
    let found := (List.range 17).findSome? fun n => x.onGrid tie (k - (n + 1 : Nat))
    (found.getD x.exactDecimal).stripZeros 800

/-- The value times `10 ^ places`, rounded to a whole number with a half going to even. -/
def scaledTo (x : Magnitude) (places : Nat) : Nat :=
  let (num, den) := x.overGrid (-(places : Int))
  roundQuotient num den .even

def whole (x : Magnitude) : Nat :=
  x.mantissa * Nat.pow 2 x.exponent.toNat / Nat.pow 2 (-x.exponent).toNat

end Magnitude

def isNegative (x : Float) : Bool := decide (0x8000000000000000 ≤ x.toBits)

def Layout.text (layout : Layout) (x : Float) : String :=
  if x.isNaN then "NaN"
  else
    let sign := if isNegative x then "-" else ""
    if x.isInf then sign ++ "inf"
    else sign ++ layout.write ((Magnitude.ofBits x.toBits).shortest layout.tie)

def fixedText (places : Nat) (x : Float) : String :=
  if x.isNaN then "NaN"
  else
    let sign := if isNegative x then "-" else ""
    if x.isInf then sign ++ "inf"
    else sign ++ writeFixed places ((Magnitude.ofBits x.toBits).scaledTo places)

/-- The value nearest to `digits * 10 ^ exponent`; powers far outside the range
are settled without computing them. -/
def nearestFloat (digits : Nat) (exponent : Int) : Float :=
  let lead := (digits.log2 : Int) / 3 + exponent
  if digits = 0 then 0.0
  else if lead < -1500 then 0.0
  else if 1500 < exponent then 1.0 / 0.0
  else Float.ofScientific digits (exponent < 0) exponent.natAbs

/-- The place of a value in the total order: by sign, then by magnitude. -/
def orderKey (x : Float) : Int :=
  let w := x.toBits
  let size := ((w &&& 0x7FFFFFFFFFFFFFFF).toNat : Int)
  if isNegative x then -size - 1 else size

def wholeOfFloat (x : Float) : Int :=
  if x.isNaN || x.isInf then 0
  else
    let n := ((Magnitude.ofBits x.toBits).whole : Int)
    if isNegative x then -n else n

def wholeWithin (lo hi : Int) (x : Float) : Int :=
  if x.isInf then (if isNegative x then lo else hi) else max lo (min hi (wholeOfFloat x))

instance : Scalar Float where
  decLt := fun _ _ => inferInstance
  decLe := fun _ _ => inferInstance
  ofInt := Float.ofInt
  ofDecimal := nearestFloat
  isFinite := Float.isFinite
  isUndefined := Float.isNaN
  floor := Float.floor
  ceil := Float.ceil
  round := Float.round
  sortsBefore := fun x y => decide (orderKey x ≤ orderKey y)
  wholePart := wholeOfFloat
  wholeWithin := wholeWithin
  plainText := Layout.plain.text
  documentText := Layout.document.text
  settingText := Layout.setting.text
  fixedText := fixedText
  infinity? := fun negative => some (if negative then -1.0 / 0.0 else 1.0 / 0.0)
  undefined? := some (0.0 / 0.0)

end Partitura.Number
