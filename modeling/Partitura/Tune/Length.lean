import Partitura.Number.Scalar

/-!
# Written lengths

A length is written as a fraction of a quarter note. The common ones are taken
when they are near; any other length becomes a count of eighths of a quarter, at
least one, and is then always written with its denominator.
-/

namespace Partitura

structure Length where
  num : Nat
  den : Nat
  snapped : Bool
deriving DecidableEq, Repr

namespace Length

variable {α : Type} [Scalar α]

/-- How far from a common length another one may be and still be written as it. -/
def tolerance : α := 1e-3

def common : List (α × Nat × Nat) :=
  [(4, 4, 1), (2, 2, 1), (1, 1, 1), (0.5, 1, 2), (0.25, 1, 4), (0.125, 1, 8), (1.5, 3, 2),
   (0.75, 3, 4), (3, 3, 1), (2 / 3, 2, 3), (1 / 3, 1, 3)]

def eighths (quarters : α) : Nat :=
  if Scalar.isFinite quarters then Scalar.word (Scalar.maxOf (Scalar.round (quarters * 8)) 1)
  else 1

def ofQuarters (quarters : α) : Length :=
  match common.find? fun c => decide (Scalar.magnitude (quarters - c.1) < tolerance) with
  | some (_, num, den) => ⟨num, den, false⟩
  | none => ⟨eighths quarters, 8, true⟩

def quarters (l : Length) : α := Scalar.ofInt l.num / Scalar.ofInt l.den

def text (l : Length) : String :=
  if l.snapped then toString l.num ++ "/" ++ toString l.den
  else if l.den = 1 then (if l.num = 1 then "" else toString l.num)
  else if l.num = 1 then "/" ++ toString l.den
  else toString l.num ++ "/" ++ toString l.den

end Length

end Partitura
