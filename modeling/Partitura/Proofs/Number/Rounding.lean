import Mathlib
import Partitura.Proofs.Number.Order

/-!
# Rounding to a value of the format

A result of binary floating point is cut off at a bit, and two more bits say where the exact
result lies above the cut. They are kept right by every shift, so that the value that a result is
rounded to can be told from the exact result alone: it is the one in whose interval of rounding
the result lies. For a mantissa that is the least of its binade this interval is narrower below
than it is above.
-/

namespace Partitura.Number

open Float.Model Float.Model.UnpackedFloat

/-- A number lies at a mantissa, at half a unit above it, or strictly between these places. -/
def Represents (em : ExtendedMantissa) (x : ℚ) : Prop :=
  ∃ δ : ℚ, 0 ≤ δ ∧ δ < 1 ∧ (em.stickyBit = true ↔ δ ≠ 0) ∧
    2 * x = 2 * em.mantissa + em.roundBit.toNat + δ

/-- A number rounds to a natural one, a half going to the even one. -/
structure Rounds (x : ℚ) (m : ℕ) : Prop where
  lower : m - 1 / 2 ≤ x
  upper : x ≤ m + 1 / 2
  odd : m % 2 = 1 → m - 1 / 2 < x ∧ x < m + 1 / 2

namespace Represents

variable {em : ExtendedMantissa} {x : ℚ}

theorem floor (h : Represents em x) : (em.mantissa : ℚ) ≤ x ∧ x < em.mantissa + 1 := by
  obtain ⟨δ, hδ, hδ', -, hx⟩ := h
  have hround : (em.roundBit.toNat : ℚ) ≤ 1 := by exact_mod_cast em.roundBit.toNat_le
  have hround' : (0 : ℚ) ≤ em.roundBit.toNat := Nat.cast_nonneg _
  constructor <;> linarith

theorem ofFraction (m : ℕ) {num den : ℕ} (h : num < den) :
    Represents (.ofMantissaAndAccuracy m (accuracyOfFraction num den)) (m + num / den) := by
  have hden : (0 : ℚ) < den := by exact_mod_cast Nat.zero_lt_of_lt h
  have hlt : (num : ℚ) / den < 1 := (div_lt_one hden).mpr (by exact_mod_cast h)
  unfold accuracyOfFraction
  split
  · next h0 => exact ⟨0, le_rfl, one_pos, by simp [ExtendedMantissa.ofMantissaAndAccuracy],
      by simp [ExtendedMantissa.ofMantissaAndAccuracy, h0]⟩
  · next h0 =>
    have hpos : (0 : ℚ) < num / den := by
      have : (0 : ℚ) < num := by exact_mod_cast Nat.pos_of_ne_zero h0
      positivity
    have hhalf : 2 * ((num : ℚ) / den) = (2 * num : ℕ) / den := by push_cast; ring
    rcases lt_trichotomy (2 * num) den with hcmp | hcmp | hcmp
    · have hcmp' : 2 * ((num : ℚ) / den) < 1 := by
        rw [hhalf, div_lt_one hden]
        exact_mod_cast hcmp
      rw [Std.compare_eq_lt.mpr hcmp]
      refine ⟨2 * (num / den), by positivity, hcmp', ?_, ?_⟩ <;>
        simp [ExtendedMantissa.ofMantissaAndAccuracy, h0, hden.ne']
      ring
    · have hcmp' : 2 * ((num : ℚ) / den) = 1 := by
        rw [hhalf, hcmp, div_self hden.ne']
      rw [hcmp, Std.compare_self]
      refine ⟨0, le_rfl, one_pos, ?_, ?_⟩ <;> simp [ExtendedMantissa.ofMantissaAndAccuracy]
      linarith
    · have hcmp' : 1 < 2 * ((num : ℚ) / den) := by
        rw [hhalf, one_lt_div hden]
        exact_mod_cast hcmp
      rw [Std.compare_eq_gt.mpr hcmp]
      refine ⟨2 * (num / den) - 1, by linarith, by linarith, ?_, ?_⟩ <;>
        simp [ExtendedMantissa.ofMantissaAndAccuracy]
      · linarith
      · ring

theorem exact (m : ℕ) : Represents (.ofMantissaAndAccuracy m .exact) m := by
  simpa [accuracyOfFraction] using ofFraction m Nat.one_pos

theorem shiftRightOne (h : Represents em x) : Represents em.shiftRightOne (x / 2) := by
  obtain ⟨δ, hδ, hδ', hsticky, hx⟩ := h
  have hhalves : (em.mantissa : ℚ) = 2 * (em.mantissa / 2 : ℕ) + (em.mantissa % 2 : ℕ) := by
    exact_mod_cast (Nat.div_add_mod em.mantissa 2).symm
  have hround : ((em.mantissa % 2 != 0).toNat : ℚ) = (em.mantissa % 2 : ℕ) := by
    rcases Nat.mod_two_eq_zero_or_one em.mantissa with h | h <;> simp [h]
  refine ⟨(em.roundBit.toNat + δ) / 2, ?_, ?_, ?_, ?_⟩
  · positivity
  · have : (em.roundBit.toNat : ℚ) ≤ 1 := by exact_mod_cast em.roundBit.toNat_le
    linarith
  · cases hr : em.roundBit
    · simpa [ExtendedMantissa.shiftRightOne, hr] using hsticky
    · simp only [ExtendedMantissa.shiftRightOne, hr, Bool.true_or, Bool.toNat_true, true_iff]
      positivity
  · simp only [ExtendedMantissa.shiftRightOne, hround]
    linarith

theorem shiftRight (h : Represents em x) (n : ℕ) : Represents (em >>> n) (x / 2 ^ n) := by
  show Represents (n.repeat ExtendedMantissa.shiftRightOne em) _
  induction n with
  | zero => simpa [Nat.repeat] using h
  | succ n ih =>
    rw [pow_succ, ← div_div]
    exact ih.shiftRightOne

theorem roundedMantissa_eq (h : Represents em x) {m : ℕ} (hm : Rounds x m) :
    em.roundedMantissa = m := by
  obtain ⟨δ, hδ, hδ', hsticky, hx⟩ := h
  obtain ⟨lower, upper, odd⟩ := hm
  obtain ⟨q, r, s⟩ := em
  have hpos (hs : s = true) : 0 < δ := lt_of_le_of_ne hδ (Ne.symm (hsticky.mp hs))
  have hzero (hs : s = false) : δ = 0 :=
    not_not.mp fun hne => Bool.eq_false_iff.mp hs (hsticky.mpr hne)
  cases r <;> cases s <;> simp only [Bool.toNat_false, Bool.toNat_true, Nat.cast_zero,
    Nat.cast_one] at hx
  · have hδ := hzero rfl
    have hlo : (m : ℚ) < q + 1 := by linarith
    have hhi : (q : ℚ) < m + 1 := by linarith
    norm_cast at hlo hhi
    show q = m
    omega
  · have hδ := hpos rfl
    have hlo : (m : ℚ) < q + 1 := by linarith
    have hhi : (q : ℚ) < m + 1 := by linarith
    norm_cast at hlo hhi
    show q = m
    omega
  · have hδ := hzero rfl
    have hlo : (m : ℚ) < q + 2 := by linarith
    have hhi : (q : ℚ) < m + 1 := by linarith
    have heven : m % 2 = 0 := by
      by_contra hne
      obtain ⟨hl, hu⟩ := odd (by omega)
      have hl : (m : ℚ) < q + 1 := by linarith
      have hu : (q : ℚ) < m := by linarith
      norm_cast at hl hu
      omega
    norm_cast at hlo hhi
    show q + q % 2 = m
    omega
  · have hδ := hpos rfl
    have hlo : (m : ℚ) < q + 2 := by linarith
    have hhi : (q : ℚ) < m := by linarith
    norm_cast at hlo hhi
    show q + 1 = m
    omega

end Represents

/-! ## The interval of rounding -/

/-- A number lies among those that round to `m * 2 ^ e`: within half a unit of it, and within
a quarter below it if the values below it lie closer. -/
structure RoundsTo (v : ℚ) (m : ℕ) (e : ℤ) : Prop where
  rounds : Rounds (v / 2 ^ e) m
  narrow : m = 2 ^ 52 → -1074 < e → m - 1 / 4 ≤ v / 2 ^ e

theorem RoundsTo.lt {v : ℚ} {m : ℕ} {e : ℤ} (h : RoundsTo v m e) (hm : m < 2 ^ 53) :
    v < 2 ^ 53 * 2 ^ e := by
  rw [← div_lt_iff₀ (by positivity)]
  have hm : (m : ℚ) + 1 ≤ 2 ^ 53 := by exact_mod_cast hm
  linarith [h.rounds.upper]

theorem targetExponent_eq {m : ℕ} {e t : ℤ} {v : ℚ} (hlo : (m : ℚ) ≤ v / 2 ^ e)
    (hhi : v / 2 ^ e < m + 1) (he : e ≤ Format.binary64.targetExponent (totalExponent m e))
    (ht : -1074 ≤ t) (hv : v < 2 ^ 53 * 2 ^ t) (hleast : t = -1074 ∨ 2 ^ 52 * 2 ^ t ≤ v) :
    Format.binary64.targetExponent (totalExponent m e) = t := by
  have htarget : Format.binary64.targetExponent (totalExponent m e) =
      max (m.log2 + 1 + e - 53) (-1074) := rfl
  rw [htarget] at he ⊢
  have hunit : (0 : ℚ) < 2 ^ e := by positivity
  have het : e ≤ t := by
    by_cases hlog : 52 ≤ m.log2
    · have hm : 2 ^ 52 ≤ m := (Nat.le_log2 (by rintro rfl; simp at hlog)).mp hlog
      have hm : (2 : ℚ) ^ 52 ≤ m := by exact_mod_cast hm
      have hlt : (2 : ℚ) ^ (52 + e) < 2 ^ (53 + t) := by
        rw [zpow_add₀ two_ne_zero, zpow_add₀ two_ne_zero]
        exact ((mul_le_mul_of_nonneg_right hm hunit.le).trans ((le_div_iff₀ hunit).mp hlo)).trans_lt
          hv
      have := (zpow_lt_zpow_iff_right₀ one_lt_two).mp hlt
      omega
    · omega
  obtain ⟨k, rfl⟩ := Int.exists_add_of_le het
  rw [zpow_add₀ two_ne_zero, zpow_natCast] at hv hleast
  have hlog : m.log2 < 53 + k := by
    by_cases h0 : m = 0
    · simp [h0]
    · refine (Nat.log2_lt h0).mpr ?_
      have hlt : (m : ℚ) < 2 ^ (53 + k) := by
        refine hlo.trans_lt ((div_lt_iff₀ hunit).mpr ?_)
        rw [pow_add]
        linarith
      exact_mod_cast hlt
  rcases hleast with hleast | hleast
  · omega
  · have hle : 2 ^ (52 + k) ≤ m := by
      have hlt : (2 : ℚ) ^ (52 + k) < m + 1 := by
        refine lt_of_le_of_lt ((le_div_iff₀ hunit).mpr ?_) hhi
        rw [pow_add]
        linarith
      have hlt : 2 ^ (52 + k) < m + 1 := by exact_mod_cast hlt
      omega
    have := (Nat.le_log2 (by have := Nat.two_pow_pos (52 + k); omega)).mpr hle
    omega

theorem Represents.shiftToTargetExponent {m : ℕ} {e t : ℤ} {accuracy : Accuracy} {v : ℚ}
    (h : Represents (.ofMantissaAndAccuracy m accuracy) (v / 2 ^ e))
    (ht : Format.binary64.targetExponent (totalExponent m e) = t) (he : e ≤ t) :
    ∃ em, UnpackedFloat.shiftToTargetExponent Format.binary64 m e accuracy = (em, t) ∧
      Represents em (v / 2 ^ t) := by
  obtain ⟨k, rfl⟩ := Int.exists_add_of_le he
  have hk : (e + k - e).toNat = k := by omega
  refine ⟨ExtendedMantissa.ofMantissaAndAccuracy m accuracy >>> k, ?_, ?_⟩
  · simp only [UnpackedFloat.shiftToTargetExponent, shiftToExponent, ht, hk]
  · rw [zpow_add₀ two_ne_zero, zpow_natCast, ← div_div]
    exact h.shiftRight k

/-- Rounded at a cut that leaves a whole number, a result is that number, moved once more if it
has become too long. -/
theorem roundWithAccuracy_of_rounds (s : Sign) {m r : ℕ} {e t : ℤ} {accuracy : Accuracy} {v : ℚ}
    (h : Represents (.ofMantissaAndAccuracy m accuracy) (v / 2 ^ e))
    (ht : Format.binary64.targetExponent (totalExponent m e) = t) (he : e ≤ t)
    (hr : Rounds (v / 2 ^ t) r) {M : ℕ} {E : ℤ} (hM : 0 < M)
    (hshift : shiftToTargetExponent Format.binary64 r t .exact = (⟨M, false, false⟩, E)) :
    roundWithAccuracy Format.binary64 s m e accuracy = .finite s M E hM := by
  obtain ⟨em, hfirst, hem⟩ := h.shiftToTargetExponent ht he
  simp only [roundWithAccuracy, hfirst, hem.roundedMantissa_eq hr, hshift, hM.ne', dite_false]

theorem roundWithAccuracy_eq {s : Sign} {m M : ℕ} {e E : ℤ} {accuracy : Accuracy} {v : ℚ}
    {hM : 0 < M} (hcanonical : Canonical (.finite s M E hM))
    (h : Represents (.ofMantissaAndAccuracy m accuracy) (v / 2 ^ e))
    (he : e ≤ Format.binary64.targetExponent (totalExponent m e)) (hv : RoundsTo v M E) :
    roundWithAccuracy Format.binary64 s m e accuracy = .finite s M E hM := by
  obtain ⟨hshort, hleast, hgreatest, hlong⟩ := hcanonical
  obtain ⟨hlo, hhi⟩ := h.floor
  have hmantissa : (ExtendedMantissa.ofMantissaAndAccuracy m accuracy).mantissa = m :=
    mantissa_ofMantissaAndAccuracy m accuracy
  rw [hmantissa] at hlo hhi
  have hunit : (0 : ℚ) < 2 ^ E := by positivity
  by_cases hlow : E = -1074 ∨ 2 ^ 52 * 2 ^ E ≤ v
  · have ht := targetExponent_eq hlo hhi he hleast (hv.lt hshort) hlow
    refine roundWithAccuracy_of_rounds s h ht (ht ▸ he) hv.rounds hM ?_
    have htarget : Format.binary64.targetExponent (totalExponent M E) = E := by
      have hlog : M.log2 < 53 := (Nat.log2_lt hM.ne').mpr hshort
      have hlog' : -1074 < E → 52 ≤ M.log2 := fun h => (Nat.le_log2 hM.ne').mpr (hlong h)
      show max ((M.log2 : ℤ) + 1 + E - 53) (-1074) = E
      omega
    simp [shiftToTargetExponent, shiftToExponent, htarget, ExtendedMantissa.ofMantissaAndAccuracy,
      HShiftRight.hShiftRight, Nat.repeat]
  · -- Just below the least mantissa of its binade a number is cut one bit lower.
    obtain ⟨hE, hbelow⟩ := not_or.mp hlow
    have hbelow : v / 2 ^ E < 2 ^ 52 := (div_lt_iff₀ hunit).mpr (not_le.mp hbelow)
    have hM52 : M = 2 ^ 52 := by
      have hlt : (M : ℚ) < 2 ^ 52 + 1 := by linarith [hv.rounds.lower]
      have hlt : M < 2 ^ 52 + 1 := by exact_mod_cast hlt
      have := hlong (by omega)
      omega
    subst hM52
    have hnarrow := hv.narrow rfl (by omega)
    have hhalf : v / 2 ^ (E - 1) = 2 * (v / 2 ^ E) := by
      rw [zpow_sub_one₀ two_ne_zero]
      field_simp
    have hcarry : Rounds (v / 2 ^ (E - 1)) (2 ^ 53) := by
      rw [hhalf]
      push_cast at hnarrow ⊢
      exact ⟨by push_cast; linarith, by push_cast; linarith, fun h => absurd h (by decide)⟩
    have ht := targetExponent_eq (t := E - 1) hlo hhi he (by omega)
      (by rw [← div_lt_iff₀ (by positivity), hhalf]; linarith)
      (.inr (by
        rw [← le_div_iff₀ (by positivity), hhalf]
        push_cast at hnarrow
        linarith))
    refine roundWithAccuracy_of_rounds s h ht (ht ▸ he) hcarry hM ?_
    have htarget : Format.binary64.targetExponent (totalExponent (2 ^ 53) (E - 1)) = E := by
      show max ((Nat.log2 (2 ^ 53) : ℤ) + 1 + (E - 1) - 53) (-1074) = E
      rw [Nat.log2_two_pow]
      omega
    have hone : (E - (E - 1)).toNat = 1 := by omega
    simp only [shiftToTargetExponent, shiftToExponent, htarget, hone]
    exact Prod.ext rfl (by simp)

theorem roundsTo_self (m : ℕ) (e : ℤ) : RoundsTo (m * 2 ^ e) m e := by
  have hquotient : (m : ℚ) * 2 ^ e / 2 ^ e = m := mul_div_cancel_right₀ _ (by positivity)
  refine ⟨⟨?_, ?_, fun _ => ⟨?_, ?_⟩⟩, fun _ _ => ?_⟩ <;> rw [hquotient] <;> linarith

/-! ## Products and quotients -/

variable {s r : Sign} {m m' M : ℕ} {e e' E : ℤ} {hm : 0 < m} {hm' : 0 < m'} {hM : 0 < M}

theorem mul_eq (hcanonical : Canonical (.finite (s * r) M E hM)) (hlong : 2 ^ 52 ≤ m * m')
    (hv : RoundsTo (m * 2 ^ e * (m' * 2 ^ e')) M E) :
    UnpackedFloat.mul Format.binary64 (.finite s m e hm) (.finite r m' e' hm') =
      .finite (s * r) M E hM := by
  have hquotient : (m : ℚ) * 2 ^ e * (m' * 2 ^ e') / 2 ^ (e + e') = (m * m' : ℕ) := by
    rw [zpow_add₀ two_ne_zero]
    push_cast
    field_simp
  refine roundWithAccuracy_eq hcanonical (hquotient ▸ Represents.exact _) ?_ hv
  have hlog := (Nat.le_log2 (Nat.mul_pos hm hm').ne').mpr hlong
  show e + e' ≤ max ((m * m').log2 + 1 + (e + e') - 53) (-1074)
  omega

theorem divCore_le_targetExponent (hm : 0 < m) (hm' : 0 < m') (e e' : ℤ) :
    let t := (divCore Format.binary64 m e m' e').2.1
    t ≤ e - e' ∧ t ≤ Format.binary64.targetExponent
      (totalExponent ((m <<< (e - e' - t).toNat) / m') t) := by
  dsimp only [divCore]
  set t := min (e - e')
    (Format.binary64.targetExponent (totalExponent m e - totalExponent m' e')) with ht
  have hmax : t ≤ max ((m.log2 : ℤ) + e - (m'.log2 + e') - 53) (-1074) := by
    refine (min_le_right _ _).trans ?_
    show max ((m.log2 : ℤ) + 1 + e - (m'.log2 + 1 + e') - 53) (-1074) ≤ _
    omega
  have hle : t ≤ e - e' := min_le_left _ _
  refine ⟨hle, ?_⟩
  show t ≤ max (((m <<< (e - e' - t).toNat / m').log2 : ℤ) + 1 + t - 53) (-1074)
  by_cases hleast : t ≤ -1074
  · omega
  · have hbits : m'.log2 + 53 ≤ m.log2 + (e - e' - t).toNat := by omega
    have hlong : 2 ^ 52 ≤ m <<< (e - e' - t).toNat / m' := by
      rw [Nat.le_div_iff_mul_le hm', Nat.shiftLeft_eq]
      calc 2 ^ 52 * m' ≤ 2 ^ 52 * 2 ^ (m'.log2 + 1) :=
            Nat.mul_le_mul_left _ Nat.lt_log2_self.le
        _ = 2 ^ (m'.log2 + 53) := by rw [← Nat.pow_add]; congr 1; omega
        _ ≤ 2 ^ (m.log2 + (e - e' - t).toNat) := Nat.pow_le_pow_right two_pos hbits
        _ ≤ m * 2 ^ (e - e' - t).toNat := by
          rw [Nat.pow_add]
          exact Nat.mul_le_mul_right _ (Nat.log2_self_le hm.ne')
    have := (Nat.le_log2 (by omega)).mpr hlong
    omega

theorem div_eq (hcanonical : Canonical (.finite (s / r) M E hM))
    (hv : RoundsTo (m * 2 ^ e / (m' * 2 ^ e')) M E) :
    UnpackedFloat.div Format.binary64 (.finite s m e hm) (.finite r m' e' hm') =
      .finite (s / r) M E hM := by
  obtain ⟨hle, htarget⟩ := divCore_le_targetExponent hm hm' e e'
  dsimp only [divCore] at hle htarget
  simp only [UnpackedFloat.div, divCore]
  set t := min (e - e')
    (Format.binary64.targetExponent (totalExponent m e - totalExponent m' e'))
  refine roundWithAccuracy_eq hcanonical ?_ htarget hv
  set n := m <<< (e - e' - t).toNat with hn
  obtain ⟨k, hk⟩ := Int.exists_add_of_le hle
  have hshift : (e - e' - t).toNat = k := by omega
  have hquotient : (m : ℚ) * 2 ^ e / (m' * 2 ^ e') / 2 ^ t =
      (n / m' : ℕ) + (n % m' : ℕ) / m' := by
    have hn : (n : ℚ) = m * 2 ^ k := by
      rw [hn, hshift, Nat.shiftLeft_eq]
      push_cast
      rfl
    have hdivmod : (n : ℚ) = m' * (n / m' : ℕ) + (n % m' : ℕ) := by
      exact_mod_cast (Nat.div_add_mod n m').symm
    have he : (2 : ℚ) ^ e = 2 ^ e' * (2 ^ t * 2 ^ k) := by
      rw [← zpow_natCast, ← zpow_add₀ two_ne_zero, ← zpow_add₀ two_ne_zero]
      congr 1
      omega
    have hpos : (0 : ℚ) < m' := by exact_mod_cast hm'
    have hsplit : ((n / m' : ℕ) : ℚ) + (n % m' : ℕ) / m' = n / m' := by
      rw [hdivmod]
      field_simp
    rw [hsplit, hn, he]
    field_simp
  rw [hquotient]
  exact Represents.ofFraction _ (Nat.mod_lt _ hm')

end Partitura.Number
