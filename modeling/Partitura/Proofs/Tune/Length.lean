import Mathlib.Tactic.NormNum
import Partitura.Proofs.Number.Exact
import Partitura.Tune.Length

/-!
# Lengths in eighths of a quarter

A whole number of eighths of a quarter is written exactly. All common lengths are whole numbers
of 24ths, and two different ones of these are farther apart than the tolerance: a common length
is taken only for itself. Any other count of eighths is the one nearest to itself, as far as 32
bits can count.
-/

namespace Partitura

def IsEighths (x : Rat) : Prop := ∃ n : Int, x = n / 8

namespace IsEighths

variable {x y : Rat}

theorem iff_onGrid : IsEighths x ↔ OnGrid 8 x := by
  rw [IsEighths, OnGrid, Nat.cast_ofNat]

theorem iff_den (x : Rat) : IsEighths x ↔ (x * 8).den = 1 := by
  rw [iff_onGrid, OnGrid.iff_den (by decide), Nat.cast_ofNat]

instance : DecidablePred IsEighths := fun x => decidable_of_iff _ (iff_den x).symm

theorem sub (hx : IsEighths x) (hy : IsEighths y) : IsEighths (x - y) :=
  iff_onGrid.mpr ((iff_onGrid.mp hx).sub (iff_onGrid.mp hy))

theorem eq_or_apart (hx : IsEighths x) (hy : IsEighths y) : x = y ∨ 1 / 8 ≤ |x - y| := by
  have happart := (iff_onGrid.mp hx).eq_or_apart (by decide) (iff_onGrid.mp hy)
  rwa [Nat.cast_ofNat] at happart

theorem exists_nat (hx : IsEighths x) (hpos : 0 < x) : ∃ n : Nat, 0 < n ∧ x = n / 8 := by
  obtain ⟨n, hn⟩ := (iff_onGrid.mp hx).exists_nat (by decide) hpos.le
  rw [Nat.cast_ofNat] at hn
  refine ⟨n, Nat.pos_of_ne_zero ?_, hn⟩
  rintro rfl
  rw [hn, Nat.cast_zero, zero_div] at hpos
  exact lt_irrefl _ hpos

end IsEighths

namespace Length

theorem common_eq : ∀ c ∈ (common : List (Rat × Nat × Nat)),
    (c.1 * 24).den = 1 ∧ (c.2.1 / c.2.2 : Rat) = c.1 := by decide +kernel

theorem tolerance_eq : (tolerance : Rat) = 1 / 1000 := by decide +kernel

theorem eq_of_near {x c : Rat} (hx : IsEighths x) (hc : (c * 24).den = 1)
    (hnear : |x - c| < 1 / 1000) : x = c := by
  obtain ⟨n, rfl⟩ := hx
  have hwhole : c * 24 = (c * 24).num := ((Rat.den_eq_one_iff _).mp hc).symm
  generalize (c * 24).num = m at hwhole
  have hdiff : ((3 * n - m : Int) : Rat) = (n / 8 - c) * 24 := by
    push_cast
    linarith
  have hlt : |((3 * n - m : Int) : Rat)| < 1 := by
    rw [hdiff, abs_mul, abs_of_pos (by norm_num : (0 : Rat) < 24)]
    linarith
  have hzero : 3 * n - m = 0 := Int.abs_lt_one_iff.mp (by exact_mod_cast hlt)
  rw [hzero, Int.cast_zero] at hdiff
  linarith

theorem eighths_eq {n : Nat} (hpos : 0 < n) (hle : n ≤ 4294967295) :
    eighths ((n : Rat) / 8) = n := by
  have hmax : Scalar.maxOf (((n : Int) : Rat)) 1 = ((n : Int) : Rat) := by
    rw [maxOf_eq_max]
    exact max_eq_left (by exact_mod_cast hpos)
  show Scalar.word (Scalar.maxOf ((Number.roundHalfAway ((n : Rat) / 8 * 8) : Int) : Rat) 1) = n
  rw [div_mul_cancel₀ _ (by norm_num : (8 : Rat) ≠ 0), Number.roundHalfAway_natCast, hmax,
    Number.word_intCast]
  omega

theorem quarters_ofQuarters {x : Rat} (hx : IsEighths x) (hpos : 0 < x)
    (hle : x * 8 ≤ 4294967295) : (ofQuarters x).quarters = x := by
  unfold ofQuarters
  split
  · next c num den hfind =>
    obtain ⟨hwhole, hvalue⟩ := common_eq _ (List.mem_of_find?_eq_some hfind)
    have hnear : |x - c| < 1 / 1000 := by
      rw [← magnitude_eq_abs, ← tolerance_eq]
      simpa using List.find?_some hfind
    rw [eq_of_near hx hwhole hnear]
    exact hvalue
  · obtain ⟨n, hn, rfl⟩ := hx.exists_nat hpos
    have hcount : n ≤ 4294967295 := by
      rw [div_mul_cancel₀ _ (by norm_num : (8 : Rat) ≠ 0)] at hle
      exact_mod_cast hle
    rw [eighths_eq hn hcount]
    rfl

end Length

end Partitura
