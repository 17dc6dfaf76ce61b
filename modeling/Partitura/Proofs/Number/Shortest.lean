import Mathlib
import Partitura.Proofs.Number.Nearest

/-!
# The shortest decimal of a value reads back

Scaled comparisons compare the numbers themselves. So the test for reading back says that a
decimal lies in the interval of rounding of a value, and it is the number that counts and not the
way in which its digits and its exponent are chosen. Whichever candidate the search comes to, it
has passed the test, and the decimal that is taken when none has is the value itself.
-/

namespace Partitura.Number

open Float.Model Float.Model.UnpackedFloat

def Decimal.value (d : Decimal) : ℚ := d.digits * 10 ^ d.exponent

/-! ## Comparing -/

theorem pow_toNat {b : ℚ} (hb : b ≠ 0) (i : ℤ) : b ^ i.toNat = b ^ i * b ^ (-i).toNat := by
  rw [← zpow_natCast, ← zpow_natCast, ← zpow_add₀ hb]
  congr 1
  omega

section Comparing

variable (a : ℕ) (i : ℤ) (n : ℕ) (j : ℤ)

/-- Both sides of a scaled comparison are the numbers themselves, made whole by one factor. -/
theorem scaled_eq :
    ((a * Nat.pow 10 i.toNat * Nat.pow 2 (-j).toNat : ℕ) : ℚ) =
        a * 10 ^ i * (10 ^ (-i).toNat * 2 ^ (-j).toNat) ∧
      ((n * Nat.pow 2 j.toNat * Nat.pow 10 (-i).toNat : ℕ) : ℚ) =
        n * 2 ^ j * (10 ^ (-i).toNat * 2 ^ (-j).toNat) := by
  have hten := pow_toNat (b := 10) (by norm_num) i
  have htwo := pow_toNat (b := 2) (by norm_num) j
  constructor
  · simp only [Nat.pow_eq, Nat.cast_mul, Nat.cast_pow, Nat.cast_ofNat, hten]
    ring
  · simp only [Nat.pow_eq, Nat.cast_mul, Nat.cast_pow, Nat.cast_ofNat, htwo]
    ring

variable {a i n j} {closed : Bool}

theorem compareScaled_lt_iff :
    compareScaled a i n j = .lt ↔ (a : ℚ) * 10 ^ i < n * 2 ^ j := by
  obtain ⟨hleft, hright⟩ := scaled_eq a i n j
  rw [compareScaled, Nat.compare_eq_lt, ← Nat.cast_lt (α := ℚ), hleft, hright,
    mul_lt_mul_iff_left₀ (by positivity)]

theorem compareScaled_gt_iff :
    compareScaled a i n j = .gt ↔ (n : ℚ) * 2 ^ j < a * 10 ^ i := by
  obtain ⟨hleft, hright⟩ := scaled_eq a i n j
  rw [compareScaled, Nat.compare_eq_gt, ← Nat.cast_lt (α := ℚ), hleft, hright,
    mul_lt_mul_iff_left₀ (by positivity)]

theorem compareScaled_eq_iff :
    compareScaled a i n j = .eq ↔ (a : ℚ) * 10 ^ i = n * 2 ^ j := by
  obtain ⟨hleft, hright⟩ := scaled_eq a i n j
  rw [compareScaled, Nat.compare_eq_eq, ← Nat.cast_inj (R := ℚ), hleft, hright]
  exact mul_left_inj' (by positivity)

theorem above_iff :
    (match compareScaled a i n j with
      | .gt => true
      | .eq => closed
      | .lt => false) = true ↔
    (n : ℚ) * 2 ^ j < a * 10 ^ i ∨ closed = true ∧ (n : ℚ) * 2 ^ j = a * 10 ^ i := by
  cases h : compareScaled a i n j with
  | lt =>
    have hlt := compareScaled_lt_iff.mp h
    simp [hlt.not_gt, hlt.ne']
  | eq =>
    have heq := compareScaled_eq_iff.mp h
    simp [heq]
  | gt =>
    have hgt := compareScaled_gt_iff.mp h
    simp [hgt]

theorem below_iff :
    (match compareScaled a i n j with
      | .lt => true
      | .eq => closed
      | .gt => false) = true ↔
    (a : ℚ) * 10 ^ i < n * 2 ^ j ∨ closed = true ∧ (a : ℚ) * 10 ^ i = n * 2 ^ j := by
  cases h : compareScaled a i n j with
  | lt =>
    have hlt := compareScaled_lt_iff.mp h
    simp [hlt]
  | eq =>
    have heq := compareScaled_eq_iff.mp h
    simp [heq]
  | gt =>
    have hgt := compareScaled_gt_iff.mp h
    simp [hgt.not_gt, hgt.ne']

end Comparing

namespace Magnitude

def low (x : Magnitude) : ℕ := if x.narrowBelow then 4 * x.mantissa - 1 else 4 * x.mantissa - 2

/-- A number lies in the interval of rounding of a value, to which the ends belong when the
mantissa is even. -/
def Admits (x : Magnitude) (v : ℚ) : Prop :=
  (x.low * 2 ^ (x.exponent - 2) < v ∨
      x.mantissa % 2 = 0 ∧ x.low * 2 ^ (x.exponent - 2) = v) ∧
    (v < (4 * x.mantissa + 2 : ℕ) * 2 ^ (x.exponent - 2) ∨
      x.mantissa % 2 = 0 ∧ v = (4 * x.mantissa + 2 : ℕ) * 2 ^ (x.exponent - 2))

theorem readsBack_iff (x : Magnitude) (d : Decimal) :
    x.readsBack d = true ↔ x.Admits d.value := by
  have heven : (x.mantissa % 2 == 0) = true ↔ x.mantissa % 2 = 0 := beq_iff_eq
  rw [readsBack, Bool.and_eq_true]
  refine (and_congr above_iff below_iff).trans ?_
  rw [heven]
  rfl

theorem admits_self (x : Magnitude) (h : 0 < x.mantissa) :
    x.Admits (x.mantissa * 2 ^ x.exponent) := by
  have hunit : (0 : ℚ) < 2 ^ (x.exponent - 2) := by positivity
  have hvalue : (x.mantissa : ℚ) * 2 ^ x.exponent = (4 * x.mantissa : ℕ) * 2 ^ (x.exponent - 2) := by
    rw [zpow_sub₀ two_ne_zero]
    push_cast
    field_simp
  have hlow : x.low < 4 * x.mantissa := by
    unfold low
    split <;> omega
  rw [Admits, hvalue]
  refine ⟨.inl (mul_lt_mul_of_pos_right ?_ hunit), .inl (mul_lt_mul_of_pos_right ?_ hunit)⟩
  · exact_mod_cast hlow
  · exact_mod_cast Nat.lt_add_of_pos_right two_pos

theorem Admits.roundsTo {x : Magnitude} {v : ℚ} (h : x.Admits v) (hpos : 0 < x.mantissa)
    (hnarrow : x.mantissa = 2 ^ 52 → -1074 < x.exponent → x.narrowBelow = true) :
    RoundsTo v x.mantissa x.exponent := by
  obtain ⟨hlo, hhi⟩ := h
  have hunit : (0 : ℚ) < 2 ^ x.exponent := by positivity
  set q := v / 2 ^ x.exponent with hq
  have hv : v = q * 2 ^ x.exponent := (div_mul_cancel₀ v hunit.ne').symm
  have hquarter : (2 : ℚ) ^ (x.exponent - 2) = 1 / 4 * 2 ^ x.exponent := by
    rw [zpow_sub₀ two_ne_zero]
    ring
  rw [hv, hquarter, ← mul_assoc, mul_lt_mul_iff_left₀ hunit, mul_left_inj' hunit.ne'] at hlo hhi
  have hlow : (4 * x.mantissa : ℚ) - 2 ≤ x.low := by
    have : 4 * x.mantissa ≤ x.low + 2 := by
      unfold low
      split <;> omega
    have : ((4 * x.mantissa : ℕ) : ℚ) ≤ (x.low + 2 : ℕ) := by exact_mod_cast this
    push_cast at this
    linarith
  push_cast at hhi
  have hlo' : (x.low : ℚ) / 4 ≤ q := by rcases hlo with h | ⟨-, h⟩ <;> linarith
  have hhi' : q ≤ x.mantissa + 1 / 2 := by rcases hhi with h | ⟨-, h⟩ <;> linarith
  refine ⟨⟨by linarith, hhi', fun hodd => ?_⟩, fun hm he => ?_⟩
  · have hlo := hlo.resolve_right fun h => by omega
    have hhi := hhi.resolve_right fun h => by omega
    constructor <;> linarith
  · have hlow : x.low = 4 * x.mantissa - 1 := by rw [low, if_pos (hnarrow hm he)]
    have hlow : ((x.low + 1 : ℕ) : ℚ) = (4 * x.mantissa : ℕ) := by
      have : x.low + 1 = 4 * x.mantissa := by omega
      exact_mod_cast this
    push_cast at hlow
    linarith

/-! ## The search -/

theorem roundQuotient_mem (num den : ℕ) (tie : Tie) :
    roundQuotient num den tie = num / den ∨ roundQuotient num den tie = num / den + 1 := by
  unfold roundQuotient
  dsimp only
  split
  · exact .inl rfl
  · exact .inr rfl
  · exact .inr rfl
  · split
    · exact .inl rfl
    · exact .inr rfl

theorem readsBack_of_onGrid {x : Magnitude} {tie : Tie} {grid : ℤ} {d : Decimal}
    (h : x.onGrid tie grid = some d) : x.readsBack d = true := by
  unfold onGrid at h
  dsimp only at h
  split at h
  · next hlower hupper =>
    obtain rfl := Option.some.inj h
    rcases roundQuotient_mem (x.overGrid grid).1 (x.overGrid grid).2 tie with hround | hround
    · rw [hround]
      exact hlower
    · rw [hround]
      exact hupper
  · next hlower _ =>
    obtain rfl := Option.some.inj h
    exact hlower
  · next _ hupper =>
    obtain rfl := Option.some.inj h
    exact hupper
  · cases h

theorem value_exactDecimal (x : Magnitude) :
    x.exactDecimal.value = x.mantissa * 2 ^ x.exponent := by
  unfold exactDecimal
  split
  · next h =>
    obtain ⟨n, hn⟩ := Int.eq_ofNat_of_zero_le h
    rw [Decimal.value, hn]
    simp
  · next h =>
    obtain ⟨n, hn⟩ := Int.eq_ofNat_of_zero_le (show 0 ≤ -x.exponent by omega)
    have hexponent : x.exponent = -n := by omega
    have hten : (10 : ℚ) ^ n = 5 ^ n * 2 ^ n := by rw [← mul_pow]; norm_num
    rw [Decimal.value, hn, hexponent, zpow_neg, zpow_neg, zpow_natCast, zpow_natCast, hten]
    simp only [Int.toNat_natCast, Nat.pow_eq, Nat.cast_mul, Nat.cast_pow,
      Nat.cast_ofNat]
    field_simp

end Magnitude

theorem value_stripZeros (fuel : ℕ) (d : Decimal) : (d.stripZeros fuel).value = d.value := by
  induction fuel generalizing d with
  | zero => rfl
  | succ fuel ih =>
    unfold Decimal.stripZeros
    split
    · next h =>
      rw [ih]
      have hdigits : (d.digits : ℚ) = 10 * (d.digits / 10 : ℕ) := by
        exact_mod_cast (Nat.mul_div_cancel' (Nat.dvd_of_mod_eq_zero h.2)).symm
      simp only [Decimal.value]
      rw [zpow_add_one₀ (by norm_num), hdigits]
      ring
    · rfl

namespace Magnitude

theorem admits_shortest (x : Magnitude) (h : 0 < x.mantissa) (tie : Tie) :
    x.Admits (x.shortest tie).value := by
  unfold shortest
  rw [if_neg h.ne']
  dsimp only
  rw [value_stripZeros]
  cases hfound : (List.range 17).findSome? fun n => x.onGrid tie (x.scale - (n + 1 : ℕ)) with
  | none =>
    rw [Option.getD_none, value_exactDecimal]
    exact x.admits_self h
  | some d =>
    obtain ⟨n, -, hn⟩ := List.exists_of_findSome?_eq_some hfound
    exact (x.readsBack_iff d).mp (readsBack_of_onGrid hn)

theorem narrowBelow_ofBits {w : UInt64} (hm : (ofBits w).mantissa = 2 ^ 52)
    (he : -1074 < (ofBits w).exponent) : (ofBits w).narrowBelow = true := by
  rw [ofBits_eq] at hm he ⊢
  split at hm
  · next h =>
    rw [if_pos h] at he
    exact absurd he (Int.lt_irrefl _)
  · next h =>
    rw [if_neg h] at he ⊢
    dsimp only at hm he ⊢
    rw [Bool.and_eq_true, beq_iff_eq, decide_eq_true_iff]
    omega

end Magnitude

/-! ## Reading a value back -/

theorem canonical_size {x : Float} (h : x.isFinite = true)
    (hm : 0 < (Magnitude.ofBits x.toBits).mantissa) (s : Sign) :
    Canonical (.finite s (Magnitude.ofBits x.toBits).mantissa
      (Magnitude.ofBits x.toBits).exponent hm) := by
  have hcanonical : Canonical x.toModel.unpack :=
    (unpack_cases x.toModel.toBits.toBitVec (isNaN_of_isFinite h)).1
  rw [unpack_finite h hm] at hcanonical
  exact hcanonical

/-- A decimal as great as the shortest one of a value is read as that value, but for its sign. -/
theorem nearestFloat_of_value {x : Float} (h : x.isFinite = true) {tie : Tie} {digits : ℕ}
    {exponent : ℤ}
    (hv : digits * 10 ^ exponent = ((Magnitude.ofBits x.toBits).shortest tie).value) :
    (if isNegative x then -nearestFloat digits exponent else nearestFloat digits exponent) = x := by
  have hx := isNaN_of_isFinite h
  refine (eq_of_unpack_eq hx ?_).symm
  rcases Nat.eq_zero_or_pos (Magnitude.ofBits x.toBits).mantissa with hm | hm
  · have hdigits : digits = 0 := by
      have hzero : (digits : ℚ) * 10 ^ exponent = 0 := by
        rw [hv, Magnitude.shortest, if_pos hm]
        simp [Decimal.value]
      have hpower : (10 : ℚ) ^ exponent ≠ 0 := by positivity
      exact_mod_cast (mul_eq_zero.mp hzero).resolve_right hpower
    have hnearest : nearestFloat digits exponent = 0.0 := by
      rw [hdigits, nearestFloat, if_pos rfl]
    rw [unpack_zero h hm, hnearest, signOf]
    split <;> rfl
  · have hround : RoundsTo (digits * 10 ^ exponent) (Magnitude.ofBits x.toBits).mantissa
        (Magnitude.ofBits x.toBits).exponent := by
      rw [hv]
      exact (Magnitude.admits_shortest _ hm tie).roundsTo hm Magnitude.narrowBelow_ofBits
    have hnearest := nearestFloat_eq hround (canonical_size h hm .positive)
    rw [unpack_finite h hm, signOf]
    split
    · show _ = unpack Format.binary64 (UnpackedFloat.pack Format.binary64
        (nearestFloat digits exponent).toModel.unpack.neg)
      rw [hnearest]
      exact (unpack_pack (canonical_size h hm .negative)).symm
    · exact hnearest.symm

end Partitura.Number
