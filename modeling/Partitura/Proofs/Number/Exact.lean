import Mathlib.Algebra.Order.Field.Rat
import Mathlib.Data.Rat.Floor
import Mathlib.Tactic.FieldSimp
import Mathlib.Tactic.Linarith
import Partitura.Number.Rational

/-!
# Exact numbers and their usual operations

Over exact numbers, which are all defined and finite, the operations of the number types are
those that the order and the field of the rationals have, and a whole number is its own whole
part.
-/

namespace Partitura

theorem maxOf_eq_max (x y : Rat) : Scalar.maxOf x y = max x y := by
  show (if y < x then x else y) = max x y
  rcases lt_or_ge y x with h | h
  · rw [if_pos h, max_eq_left h.le]
  · rw [if_neg h.not_gt, max_eq_right h]

theorem minOf_eq_min (x y : Rat) : Scalar.minOf x y = min x y := by
  show (if x < y then x else y) = min x y
  rcases lt_or_ge x y with h | h
  · rw [if_pos h, min_eq_left h.le]
  · rw [if_neg h.not_gt, min_eq_right h]

theorem clampTo_eq {lo hi : Rat} (h : lo ≤ hi) (x : Rat) :
    Scalar.clampTo lo hi x = max lo (min hi x) := by
  unfold Scalar.clampTo
  split
  · next hlow => rw [min_eq_right (hlow.le.trans h), max_eq_left hlow.le]
  · next hlow =>
    split
    · next hhigh => rw [min_eq_left hhigh.le, max_eq_right h]
    · next hhigh => rw [min_eq_right (not_lt.mp hhigh), max_eq_right (not_lt.mp hlow)]

theorem magnitude_eq_abs (x : Rat) : Scalar.magnitude x = |x| := by
  show (if x < 0 then -x else x) = |x|
  rcases lt_or_ge x 0 with h | h
  · rw [if_pos h, abs_of_neg h]
  · rw [if_neg h.not_gt, abs_of_nonneg h]

theorem le_magnitude {x : Rat} (hx : 0 ≤ x) : Scalar.magnitude x = x := by
  rw [magnitude_eq_abs, abs_of_nonneg hx]

namespace Number

theorem roundHalfAway_of_nonneg {x : Rat} (hx : 0 ≤ x) :
    roundHalfAway x = ⌊x + 1 / 2⌋ := by
  have hnum : 0 ≤ x.num := Rat.num_nonneg.mpr hx
  have hden : (x.den : Rat) ≠ 0 := Nat.cast_ne_zero.mpr x.den_ne_zero
  have hquotient : x + 1 / 2 = ((2 * x.num + x.den : Int) : Rat) / ((2 * x.den : Nat) : Rat) := by
    conv_lhs => rw [← Rat.num_div_den x]
    push_cast
    field_simp
  unfold roundHalfAway
  dsimp only
  rw [if_neg hnum.not_gt, hquotient, Rat.floor_intCast_div_natCast]
  push_cast
  rw [abs_of_nonneg hnum]

theorem roundHalfAway_natCast (n : Nat) : roundHalfAway (n : Rat) = n := by
  rw [roundHalfAway_of_nonneg (Nat.cast_nonneg n), Int.floor_eq_iff]
  push_cast
  constructor <;> linarith

theorem roundHalfAway_of_neg {x : Rat} (hx : x < 0) :
    roundHalfAway x = -roundHalfAway (-x) := by
  have hnum : x.num < 0 := Rat.num_neg.mpr hx
  unfold roundHalfAway
  dsimp only
  rw [if_pos hnum, Rat.num_neg_eq_neg_num, Rat.den_neg_eq_den, Int.natAbs_neg,
    if_neg (by omega : ¬ -x.num < 0)]

theorem roundHalfAway_eq_iff_of_nonneg {x : Rat} (hx : 0 ≤ x) {n : Int} :
    roundHalfAway x = n ↔ x - 1 / 2 < n ∧ n ≤ x + 1 / 2 := by
  rw [roundHalfAway_of_nonneg hx, Int.floor_eq_iff]
  constructor <;> rintro ⟨h, h'⟩ <;> constructor <;> linarith

theorem wholeOfRat_intCast (n : Int) : wholeOfRat n = n := by
  simp [wholeOfRat]

theorem word_intCast (n : Int) : Scalar.word (n : Rat) = min n.toNat 4294967295 := by
  show (max 0 (min 4294967295 (wholeOfRat n))).toNat = _
  rw [wholeOfRat_intCast]
  omega

theorem longWord_intCast (n : Int) :
    Scalar.longWord (n : Rat) = min n.toNat 18446744073709551615 := by
  show (max 0 (min 18446744073709551615 (wholeOfRat n))).toNat = _
  rw [wholeOfRat_intCast]
  omega

end Number

/-! ## Grids -/

def OnGrid (den : Nat) (x : Rat) : Prop := ∃ n : Int, x = n / den

namespace OnGrid

variable {den : Nat} {x y : Rat}

theorem iff_den (hden : 0 < den) : OnGrid den x ↔ (x * den).den = 1 := by
  have hne : (den : Rat) ≠ 0 := Nat.cast_ne_zero.mpr hden.ne'
  constructor
  · rintro ⟨n, rfl⟩
    rw [div_mul_cancel₀ _ hne]
    exact Rat.den_intCast n
  · intro h
    refine ⟨(x * den).num, ?_⟩
    rw [(Rat.den_eq_one_iff _).mp h, mul_div_cancel_right₀ x hne]

theorem sub (hx : OnGrid den x) (hy : OnGrid den y) : OnGrid den (x - y) := by
  obtain ⟨m, rfl⟩ := hx
  obtain ⟨n, rfl⟩ := hy
  refine ⟨m - n, ?_⟩
  push_cast
  ring

theorem eq_or_apart (hden : 0 < den) (hx : OnGrid den x) (hy : OnGrid den y) :
    x = y ∨ 1 / den ≤ |x - y| := by
  have hpos : (0 : Rat) < den := Nat.cast_pos.mpr hden
  obtain ⟨n, hn⟩ := hx.sub hy
  rw [hn]
  rcases eq_or_ne n 0 with rfl | hne
  · left
    rw [Int.cast_zero, zero_div] at hn
    exact sub_eq_zero.mp hn
  · right
    have hone : (1 : Rat) ≤ |(n : Rat)| := by exact_mod_cast Int.one_le_abs hne
    rw [abs_div, abs_of_pos hpos]
    exact div_le_div_of_nonneg_right hone hpos.le

theorem exists_nat (hden : 0 < den) (hx : OnGrid den x) (hpos : 0 ≤ x) : ∃ n : Nat, x = n / den := by
  obtain ⟨n, rfl⟩ := hx
  have hn : (0 : Rat) ≤ n := by
    have hmul := mul_nonneg hpos (Nat.cast_nonneg (α := Rat) den)
    rwa [div_mul_cancel₀ _ (Nat.cast_ne_zero.mpr hden.ne')] at hmul
  obtain ⟨m, rfl⟩ := Int.eq_ofNat_of_zero_le (Int.cast_nonneg_iff.mp hn)
  exact ⟨m, by push_cast; rfl⟩

end OnGrid

end Partitura
