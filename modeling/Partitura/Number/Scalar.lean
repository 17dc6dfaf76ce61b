/-!
# Numbers that times, tempos and levels are measured in

Everything that computes with times, beats or levels is written once, over any
type of numbers with the operations of `Scalar`. A program runs on binary
floating point; reasoning about exact times uses the rational numbers. The
order of operations in the definitions is fixed, since in floating point it is
part of the result.
-/

namespace Partitura

/-- Numbers with arithmetic, comparison, rounding, and a text of their own. -/
class Scalar (α : Type) extends Add α, Sub α, Mul α, Div α, Neg α, BEq α, LT α, LE α where
  decLt : (x y : α) → Decidable (x < y)
  decLe : (x y : α) → Decidable (x ≤ y)
  ofInt : Int → α
  /-- The number nearest to `digits * 10 ^ exponent`. -/
  ofDecimal : Nat → Int → α
  isFinite : α → Bool
  isUndefined : α → Bool
  floor : α → α
  ceil : α → α
  /-- The nearest whole number, a half going away from zero. -/
  round : α → α
  /-- A total order for sorting; it agrees with `≤` on finite numbers that differ. -/
  sortsBefore : α → α → Bool
  /-- The whole part of a finite number, towards zero; any other counts as zero. -/
  wholePart : α → Int
  /-- The whole part, held between two bounds; an undefined value counts as zero. -/
  wholeWithin : Int → Int → α → Int
  plainText : α → String
  documentText : α → String
  settingText : α → String
  fixedText : Nat → α → String
  /-- The largest or least value that a text can name, where there is one. -/
  infinity? : Bool → Option α
  undefined? : Option α

namespace Scalar

variable {α : Type} [Scalar α]

instance (x y : α) : Decidable (x < y) := decLt x y
instance (x y : α) : Decidable (x ≤ y) := decLe x y

instance (priority := low) (n : Nat) : OfNat α n := ⟨ofInt n⟩
instance (priority := low) : OfScientific α :=
  ⟨fun digits negative places => ofDecimal digits (if negative then -(places : Int) else places)⟩

instance (priority := low) : Inhabited α := ⟨ofInt 0⟩

/-- The greater of two numbers; an undefined one gives way to the other. -/
def maxOf (x y : α) : α :=
  if isUndefined x then y else if isUndefined y then x else if y < x then x else y

def minOf (x y : α) : α :=
  if isUndefined x then y else if isUndefined y then x else if x < y then x else y

def clampTo (lo hi x : α) : α := if x < lo then lo else if hi < x then hi else x

def magnitude (x : α) : α := if x < 0 then -x else x

def isPositive (x : α) : Bool := isFinite x && decide (0 < x)

/-- The whole part as a natural number below `2 ^ 8`, `2 ^ 32` or `2 ^ 64`. -/
def byte (x : α) : Nat := (wholeWithin 0 255 x).toNat
def word (x : α) : Nat := (wholeWithin 0 4294967295 x).toNat
def longWord (x : α) : Nat := (wholeWithin 0 18446744073709551615 x).toNat

def integer (x : α) : Int := wholeWithin (-9223372036854775808) 9223372036854775807 x

end Scalar

end Partitura
