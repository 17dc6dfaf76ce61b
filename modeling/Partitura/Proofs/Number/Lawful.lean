import Partitura.Number.Rational

/-!
# Laws of the number types

What documents and scores rely on: every integer that a document can hold has a
finite value, a velocity in steps of 1/127 is a number again, a number between
zero and one is finite, and a whole part that is held between two bounds lies
between them.
-/

namespace Partitura

class LawfulScalar (α : Type) [Scalar α] : Prop where
  isFinite_ofInt (n : Int) : -9223372036854775808 ≤ n → n ≤ 18446744073709551615 →
    Scalar.isFinite (Scalar.ofInt n : α) = true
  isUndefined_div (x : α) : Scalar.isFinite x = true → Scalar.isUndefined (x / 127) = false
  isFinite_of_unit (x : α) : Scalar.isUndefined x = false → ¬ x < 0 → ¬ 1 < x →
    Scalar.isFinite x = true
  wholeWithin_mem (lo hi : Int) (x : α) : lo ≤ hi →
    lo ≤ Scalar.wholeWithin lo hi x ∧ Scalar.wholeWithin lo hi x ≤ hi
  isUndefined_of_isFinite (x : α) : Scalar.isFinite x = true → Scalar.isUndefined x = false

namespace Number

theorem clamp_mem {lo hi : Int} (h : lo ≤ hi) (n : Int) :
    lo ≤ max lo (min hi n) ∧ max lo (min hi n) ≤ hi := by omega

instance : LawfulScalar Rat where
  isFinite_ofInt _ _ _ := rfl
  isUndefined_div _ _ := rfl
  isFinite_of_unit _ _ _ _ := rfl
  wholeWithin_mem _ _ x h := clamp_mem h (wholeOfRat x)
  isUndefined_of_isFinite _ _ := rfl

end Number

namespace Scalar

variable {α : Type} [Scalar α] [LawfulScalar α]

theorem integer_mem (x : α) :
    -9223372036854775808 ≤ integer x ∧ integer x ≤ 9223372036854775807 :=
  LawfulScalar.wholeWithin_mem _ _ x (by decide)

theorem isFinite_zero : isFinite (0 : α) = true :=
  LawfulScalar.isFinite_ofInt 0 (by decide) (by decide)

theorem isFinite_one : isFinite (1 : α) = true :=
  LawfulScalar.isFinite_ofInt 1 (by decide) (by decide)

theorem isFinite_clampTo_unit (x : α) (hx : isUndefined x = false) :
    isFinite (clampTo 0 1 x) = true := by
  unfold clampTo
  split
  · exact isFinite_zero
  · split
    · exact isFinite_one
    · exact LawfulScalar.isFinite_of_unit x hx ‹_› ‹_›

end Scalar

end Partitura
