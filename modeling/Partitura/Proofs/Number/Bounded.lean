import Partitura.Proofs.Number.Order

/-!
# Whole parts of numbers that are held within bounds

A number that is held between one and the greatest that 24 bits have has a whole
part that they have too. What is no number has none to exceed them.
-/

namespace Partitura

/-- Numbers that have whole parts of 24 bits where they are held between one and the greatest. -/
class BoundedScalar (α : Type) [Scalar α] : Prop where
  word_clampTo (x : α) : Scalar.word (Scalar.clampTo 1 16777215 x) ≤ 16777215

namespace Number

theorem wholeOfRat_le {x : Rat} {n : Nat} (h : x ≤ n) : wholeOfRat x ≤ n := by
  have hden : (0 : Rat) < x.den := by exact_mod_cast x.den_pos
  have hnum : x.num ≤ n * x.den := by
    rw [← Rat.num_div_den x, div_le_iff₀ hden] at h
    exact_mod_cast h
  have hpos : (0 : Int) < x.den := by exact_mod_cast x.den_pos
  exact (Int.tdiv_le_tdiv hpos hnum).trans_eq (Int.mul_tdiv_cancel _ hpos.ne')

theorem word_le {x : Rat} {n : Nat} (h : x ≤ n) : Scalar.word x ≤ n := by
  have hwhole := wholeOfRat_le h
  show (max 0 (min 4294967295 (wholeOfRat x))).toNat ≤ n
  omega

instance : BoundedScalar Rat where
  word_clampTo x := by
    refine word_le ?_
    unfold Scalar.clampTo
    split
    · decide
    · split
      · decide
      · exact not_lt.mp ‹_›

open Float.Model Float.Model.UnpackedFloat

theorem whole_le {x : Magnitude} (hm : x.mantissa < 2 ^ 53) (he : x.exponent ≤ -29) :
    x.whole ≤ 16777215 := by
  have hzero : x.exponent.toNat = 0 := by omega
  have hpow : 2 ^ 29 ≤ Nat.pow 2 (-x.exponent).toNat :=
    Nat.pow_le_pow_right (by decide) (by omega)
  have hle : x.whole ≤ x.mantissa / 2 ^ 29 := by
    rw [Magnitude.whole, hzero]
    exact (Nat.div_le_div_left hpow (by decide)).trans_eq (by simp)
  omega

theorem whole_ofBits_le {w : UInt64} (h : w.toNat ≤ 0x416FFFFFE0000000) :
    (Magnitude.ofBits w).whole ≤ 16777215 := by
  have hexponent : ((w >>> 52) &&& 0x7FF).toNat ≤ 1046 := by
    have hshift : w.toNat >>> 52 ≤ 1046 := by
      rw [Nat.shiftRight_eq_div_pow]
      omega
    rw [UInt64.toNat_and, UInt64.toNat_shiftRight]
    exact Nat.and_le_left.trans hshift
  have hmantissa : (w &&& 0xFFFFFFFFFFFFF).toNat < 2 ^ 52 := by
    rw [UInt64.toNat_and]
    exact Nat.and_lt_two_pow _ (by decide)
  unfold Magnitude.ofBits
  dsimp only
  split
  · exact whole_le (hmantissa.trans (by decide)) (show (-1074 : Int) ≤ -29 by decide)
  · refine whole_le ?_ ?_
    · dsimp only
      omega
    · dsimp only
      omega

theorem isInf_of_isNaN {x : Float} (h : x.isNaN = true) : x.isInf = false := by
  have h : x.toModel.unpack.isNaN = true := h
  show x.toModel.unpack.isInf = false
  generalize x.toModel.unpack = u at h
  cases u <;> first | rfl | cases h

theorem toBits_le_of_orderKey_le {x : Float} {bound : Nat} (h : orderKey x ≤ bound)
    (hneg : isNegative x = false) : x.toBits.toNat ≤ bound := by
  have hsmall : x.toBits.toNat < 2 ^ 63 := by
    have hnot := of_decide_eq_false hneg
    rw [UInt64.le_iff_toNat_le] at hnot
    exact Nat.lt_of_not_le hnot
  have hsize : (x.toBits &&& 0x7FFFFFFFFFFFFFFF).toNat = x.toBits.toNat := by
    rw [UInt64.toNat_and]
    exact (Nat.and_two_pow_sub_one_eq_mod _ 63).trans (Nat.mod_eq_of_lt hsmall)
  unfold orderKey at h
  dsimp only at h
  rw [hneg, hsize] at h
  exact Int.ofNat_le.mp h

theorem isInf_of_orderKey {x : Float} (hx : x.isNaN = false) (hlo : 0 ≤ orderKey x)
    (hhi : orderKey x < 2047 * 2 ^ 52) : x.isInf = false := by
  rw [orderKey_eq hx] at hlo hhi
  show x.toModel.unpack.isInf = false
  generalize x.toModel.unpack = u at hlo hhi
  cases u with
  | infinity s => cases s <;> simp only [orderKeyOf, signed] at hlo hhi <;> omega
  | _ => rfl

theorem word_le_of_not_lt {x : Float} (h : ¬Float.ofInt 16777215 < x) :
    Scalar.word x ≤ 16777215 := by
  show (wholeWithin 0 4294967295 x).toNat ≤ 16777215
  by_cases hnan : x.isNaN = true
  · rw [wholeWithin, wholeOfFloat, isInf_of_isNaN hnan, hnan]
    exact Nat.zero_le _
  · have hnum : x.isNaN = false := Bool.eq_false_iff.mpr hnan
    have hle : x ≤ Float.ofInt 16777215 := le_of_not_lt hnum (by decide +kernel) h
    have hkey := orderKey_le_of_le hle (.inr (by decide +kernel))
    have hbound : orderKey (Float.ofInt 16777215) = (0x416FFFFFE0000000 : Nat) := by decide +kernel
    rw [hbound] at hkey
    unfold wholeWithin wholeOfFloat
    cases hneg : isNegative x with
    | true =>
      split
      · decide
      · rw [if_pos rfl]
        split <;> omega
    | false =>
      have hnonneg : 0 ≤ orderKey x := by
        simp only [orderKey, hneg, Bool.false_eq_true, if_false]
        omega
      have hinf := isInf_of_orderKey hnum hnonneg (by omega)
      have hwhole := whole_ofBits_le (toBits_le_of_orderKey_le hkey hneg)
      simp only [hnum, hinf, Bool.or_false, Bool.false_eq_true, if_false]
      omega

instance : BoundedScalar Float where
  word_clampTo x := by
    have hlow : Scalar.word (Float.ofInt 1) ≤ 16777215 := by decide +kernel
    have hhigh : Scalar.word (Float.ofInt 16777215) ≤ 16777215 := by decide +kernel
    unfold Scalar.clampTo
    split
    · exact hlow
    · split
      · exact hhigh
      · exact word_le_of_not_lt ‹_›

end Number

end Partitura
