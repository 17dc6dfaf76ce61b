import Mathlib.Data.Nat.Factorization.Basic
import Partitura.Proofs.Number.Digits
import Partitura.Proofs.Number.Exact
import Partitura.Proofs.Number.Shortest

/-!
# Exact numbers in texts

A number whose decimal expansion ends is written out to its last place, and its text is read back
as the number itself. These are the numbers that decimal numerals stand for.
-/

namespace Partitura.Number

/-- The decimal expansion of a number ends. -/
def Terminates (x : Rat) : Prop := ∃ n, OnGrid (10 ^ n) x

theorem terminates_intCast (n : Int) : Terminates n := ⟨0, n, by simp⟩

theorem Terminates.neg {x : Rat} (h : Terminates x) : Terminates (-x) := by
  obtain ⟨n, k, rfl⟩ := h
  exact ⟨n, -k, by push_cast; ring⟩

theorem Terminates.sub_intCast {x : Rat} (h : Terminates x) (k : Int) : Terminates (x - k) := by
  obtain ⟨n, h⟩ := h
  have hne : ((10 ^ n : Nat) : Rat) ≠ 0 := by positivity
  refine ⟨n, h.sub ⟨k * (10 ^ n : Nat), ?_⟩⟩
  rw [Int.cast_mul, Int.cast_natCast, mul_div_cancel_right₀ _ hne]

theorem terminates_exactDecimalValue (digits : Nat) (exponent : Int) :
    Terminates (exactDecimalValue digits exponent) := by
  unfold exactDecimalValue
  split
  · exact ⟨exponent.natAbs, digits, by rw [Nat.pow_eq, Int.cast_natCast]⟩
  · exact terminates_intCast (digits * Nat.pow 10 exponent.toNat : Nat)

/-! ## Places -/

theorem onGrid_den {x : Rat} (h : Terminates x) : OnGrid (10 ^ x.den) x := by
  obtain ⟨n, k, hk⟩ := h
  have hdvd : x.den ∣ 10 ^ n := by
    have hden := Rat.den_dvd k (10 ^ n : Nat)
    rw [Rat.divInt_eq_div, Int.cast_natCast, ← hk] at hden
    exact_mod_cast hden
  have hpow : x.den ∣ 10 ^ x.den := by
    rw [← Nat.factorization_le_iff_dvd x.den_ne_zero (by positivity)]
    intro p
    have hlt := Nat.factorization_lt p x.den_ne_zero
    have hle := (Nat.factorization_le_iff_dvd x.den_ne_zero (by positivity)).mpr hdvd p
    rw [Nat.factorization_pow, Finsupp.smul_apply, smul_eq_mul] at hle ⊢
    rcases Nat.eq_zero_or_pos (Nat.factorization 10 p) with hzero | hpos
    · rw [hzero, Nat.mul_zero] at hle ⊢
      exact hle
    · exact hlt.le.trans (Nat.le_mul_of_pos_right _ hpos)
  obtain ⟨c, hc⟩ := hpow
  have hne : (x.den : Rat) ≠ 0 := Nat.cast_ne_zero.mpr x.den_ne_zero
  have hcne : (c : Rat) ≠ 0 := by
    rintro h
    rw [Nat.cast_eq_zero.mp h] at hc
    exact absurd hc (by positivity)
  refine ⟨x.num * c, ?_⟩
  rw [hc]
  push_cast
  rw [mul_div_mul_right _ _ hcne]
  exact (Rat.num_div_den x).symm

theorem exists_places?_of_onGrid (fuel : Nat) {x : Rat} (h : OnGrid (10 ^ fuel) x) :
    ∃ n, places? x fuel = some n ∧ OnGrid (10 ^ n) x := by
  have hwhole {y : Rat} (hy : y.den = 1) : OnGrid (10 ^ 0) y :=
    ⟨y.num, by simp [(Rat.den_eq_one_iff y).mp hy]⟩
  induction fuel generalizing x with
  | zero =>
    have hden : x.den = 1 := by simpa using (OnGrid.iff_den (by positivity)).mp h
    exact ⟨0, by rw [places?, if_pos hden], h⟩
  | succ fuel ih =>
    unfold places?
    split
    · next hden => exact ⟨0, rfl, hwhole hden⟩
    · obtain ⟨k, hk⟩ := h
      have hten : OnGrid (10 ^ fuel) (x * 10) := by
        refine ⟨k, ?_⟩
        rw [hk]
        push_cast
        field_simp
        ring
      obtain ⟨n, hn, m, hm⟩ := ih hten
      refine ⟨n + 1, by rw [hn, Option.map_some], m, ?_⟩
      rw [eq_div_iff (by positivity)] at hm ⊢
      rw [← hm]
      push_cast
      ring

theorem exists_places? {x : Rat} (h : Terminates x) :
    ∃ n, places? x x.den = some n ∧ OnGrid (10 ^ n) x :=
  exists_places?_of_onGrid x.den (onGrid_den h)

/-! ## Texts -/

theorem writesOut_placePoint (n : Nat) (point : Int) :
    WritesOut (placePoint (toString n) point false).toList
      (n * 10 ^ (point - (toString n).length)) := by
  have hdigits := digits_toString n
  have hvalue := valueOfDigits_toString n
  have hlength : (toString n).length = (toString n).toList.length := rfl
  have hten : (10 : Rat) ≠ 0 := by norm_num
  rw [hlength]
  unfold placePoint
  dsimp only
  split
  · next hbefore =>
    have hfraction : Digits ((zeros (-point).toNat).toList ++ (toString n).toList) := by
      refine ⟨by simp, fun c hc => ?_⟩
      exact (List.mem_append.mp hc).elim isDigit_of_mem_zeros (hdigits.2 c)
    have hzero : Digits ['0'] := ⟨by simp, by simp⟩
    convert WritesOut.point hzero hfraction using 1
    · simp
    · have hnothing : valueOfDigits 0 ['0'] = 0 := rfl
      rw [valueOfDigits_append, valueOfDigits_append, hnothing, valueOfDigits_zeros, Nat.mul_zero,
        hvalue, div_eq_mul_inv, ← zpow_natCast, ← zpow_neg]
      congr 2
      simp only [List.length_append, zeros, String.toList_ofList, List.length_replicate]
      omega
  · split
    · next hbefore hafter =>
      have hwhole : Digits ((toString n).toList ++
          (zeros (point.toNat - (toString n).length)).toList) :=
        hdigits.append fun c => isDigit_of_mem_zeros
      convert WritesOut.whole hwhole using 1
      · simp
      · have hexponent : point - (toString n).toList.length =
            ((point.toNat - (toString n).length : Nat) : Int) := by omega
        rw [valueOfDigits_append, hvalue, valueOfDigits_zeros, hexponent, zpow_natCast]
        push_cast
        ring
    · next hbefore hafter =>
      have htake : Digits ((toString n).toList.take point.toNat) := by
        refine ⟨fun h0 => ?_, fun c hc => hdigits.2 c (List.mem_of_mem_take hc)⟩
        have hzero := congrArg List.length h0
        rw [List.length_take, List.length_nil] at hzero
        omega
      have hdrop : Digits ((toString n).toList.drop point.toNat) := by
        refine ⟨fun h0 => ?_, fun c hc => hdigits.2 c (List.mem_of_mem_drop hc)⟩
        have hzero := congrArg List.length h0
        rw [List.length_drop, List.length_nil] at hzero
        omega
      convert WritesOut.point htake hdrop using 1
      · simp
      · rw [List.take_append_drop, hvalue, List.length_drop, div_eq_mul_inv, ← zpow_natCast,
          ← zpow_neg]
        congr 2
        omega

theorem writesOut_write (d : Decimal) : WritesOut (Layout.plain.write d).toList d.value := by
  unfold Layout.write
  split
  · next hzero =>
    have hvalue : d.value = valueOfDigits 0 ['0'] := by simp [Decimal.value, hzero, valueOfDigits]
    rw [hvalue, if_neg (show ¬Layout.plain.wholeFraction = true by decide)]
    exact .whole ⟨by simp, by simp⟩
  · have hplaced := writesOut_placePoint d.digits ((toString d.digits).length + d.exponent)
    rwa [add_sub_cancel_left] at hplaced

theorem writesOut_plainText {x : Rat} (hx : 0 ≤ x) (h : Terminates x) :
    WritesOut (Scalar.plainText x).toList x := by
  obtain ⟨n, hplaces, hgrid⟩ := exists_places? h
  obtain ⟨k, hk⟩ := hgrid.exists_nat (by positivity) hx
  have htext : Scalar.plainText x =
      Layout.plain.write (Decimal.stripZeros (n + 400) ⟨k, -(n : Int)⟩) := by
    show Layout.plain.textOfRat x = _
    unfold Layout.textOfRat
    have hscaled : x * (Nat.pow 10 n : Nat) = (k : Int) := by
      rw [hk, Nat.pow_eq, div_mul_cancel₀ _ (by positivity), Int.cast_natCast]
    rw [hplaces]
    dsimp only
    rw [if_neg hx.not_gt, String.empty_append, hscaled, Rat.num_intCast, Int.natAbs_natCast]
  have hvalue : Decimal.value ⟨k, -(n : Int)⟩ = x := by
    rw [hk, Decimal.value, zpow_neg, zpow_natCast, ← div_eq_mul_inv]
    push_cast
    rfl
  have hwrite := writesOut_write (Decimal.stripZeros (n + 400) ⟨k, -(n : Int)⟩)
  rwa [value_stripZeros, hvalue, ← htext] at hwrite

end Partitura.Number
