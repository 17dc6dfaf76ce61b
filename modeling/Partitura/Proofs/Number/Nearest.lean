import Mathlib
import Partitura.Proofs.Number.Rounding

/-!
# The value nearest to a decimal

The bits of a value say what it is, so values are told apart by what they unpack to. A decimal in
the interval of rounding of a value is read as that value, whether its digits and its power of ten
are values themselves or the quotient is rounded as a whole.
-/

namespace Partitura.Number

open Float.Model Float.Model.UnpackedFloat

/-! ## What the bits of a value stand for -/

theorem ofBitVec_unpackSign (b : BitVec Format.binary64.numBits) :
    Sign.ofBitVec (unpackSign b) = if 2 ^ 63 ≤ b.toNat then .negative else .positive := by
  have hs := toNat_unpackSign b
  have hlt : b.toNat < 2 ^ 64 := b.isLt
  unfold Sign.ofBitVec
  split
  · next h =>
    have h0 : b.toNat / 2 ^ 63 = 0 := by
      rw [← hs, h]
      rfl
    rw [if_neg (by omega)]
  · next h =>
    have hne : (unpackSign b).toNat ≠ 0 := fun h0 => h (BitVec.eq_of_toNat_eq h0)
    rw [if_pos (by omega)]

theorem ofBits_eq (w : UInt64) : Magnitude.ofBits w =
    if w.toNat / 2 ^ 52 % 2 ^ 11 = 0 then ⟨w.toNat % 2 ^ 52, -1074, false⟩
    else ⟨2 ^ 52 + w.toNat % 2 ^ 52, (w.toNat / 2 ^ 52 % 2 ^ 11 : ℕ) - 1075,
      w.toNat % 2 ^ 52 == 0 && decide (1 < w.toNat / 2 ^ 52 % 2 ^ 11)⟩ := by
  have he : ((w >>> 52) &&& 0x7FF).toNat = w.toNat / 2 ^ 52 % 2 ^ 11 := by
    rw [UInt64.toNat_and, UInt64.toNat_shiftRight, Nat.shiftRight_eq_div_pow]
    exact Nat.and_two_pow_sub_one_eq_mod _ 11
  have hf : (w &&& 0xFFFFFFFFFFFFF).toNat = w.toNat % 2 ^ 52 := by
    rw [UInt64.toNat_and]
    exact Nat.and_two_pow_sub_one_eq_mod _ 52
  simp only [Magnitude.ofBits, he, hf]
  rfl

theorem unpack_bits {w : UInt64} (h : (unpack Format.binary64 w.toBitVec).isFinite = true) :
    unpack Format.binary64 w.toBitVec =
      if hm : (Magnitude.ofBits w).mantissa = 0 then
        .zero (Sign.ofBitVec (@unpackSign Format.binary64 w.toBitVec))
      else
        .finite (Sign.ofBitVec (@unpackSign Format.binary64 w.toBitVec))
          (Magnitude.ofBits w).mantissa (Magnitude.ofBits w).exponent (Nat.pos_of_ne_zero hm) := by
  have hm : (@unpackMantissa Format.binary64 w.toBitVec).toNat = w.toNat % 2 ^ 52 :=
    toNat_unpackMantissa (w.toBitVec : BitVec Format.binary64.numBits)
  have he : (@unpackExponent Format.binary64 w.toBitVec).toNat = w.toNat / 2 ^ 52 % 2 ^ 11 :=
    toNat_unpackExponent (w.toBitVec : BitVec Format.binary64.numBits)
  have hlead := toNat_leadingBit (w.toBitVec : BitVec Format.binary64.numBits)
  rw [hm] at hlead
  unfold UnpackedFloat.unpack at h ⊢
  dsimp only at h ⊢
  split at h
  · split at h <;> cases h
  · next hfinite =>
    rw [if_neg hfinite]
    split at h
    · next hleast =>
      have hfield : w.toNat / 2 ^ 52 % 2 ^ 11 = 0 := by
        rw [← he, hleast]
        rfl
      rw [if_pos hleast]
      split at h
      · next hzero =>
        have hmantissa : w.toNat % 2 ^ 52 = 0 := by
          rw [← hm, hzero]
          rfl
        simp only [ofBits_eq, hfield, hmantissa, hzero, dite_true, if_true]
      · next hzero =>
        have hmantissa : w.toNat % 2 ^ 52 ≠ 0 := fun h0 => hzero (BitVec.eq_of_toNat_eq (hm.trans h0))
        simp only [ofBits_eq, hfield, hmantissa, hzero, dite_false, if_true, hm, he]
        rfl
    · next hleast =>
      have hfield : w.toNat / 2 ^ 52 % 2 ^ 11 ≠ 0 :=
        fun h0 => hleast (BitVec.eq_of_toNat_eq (he.trans h0))
      rw [if_neg hleast]
      have hmantissa : 2 ^ 52 + w.toNat % 2 ^ 52 ≠ 0 := by omega
      simp only [ofBits_eq, hfield, hmantissa, dite_false, if_false, hlead, he]
      rfl

def signOf (x : Float) : Sign := if isNegative x then .negative else .positive

theorem ofBitVec_unpackSign_eq_signOf (x : Float) :
    Sign.ofBitVec (@unpackSign Format.binary64 x.toModel.toBits.toBitVec) = signOf x := by
  rw [ofBitVec_unpackSign]
  exact if_congr (decide_eq_true_iff (p := 2 ^ 63 ≤ x.toModel.toBits.toNat)).symm rfl rfl

theorem unpack_finite {x : Float} (h : x.isFinite = true)
    (hm : 0 < (Magnitude.ofBits x.toBits).mantissa) : x.toModel.unpack =
      .finite (signOf x) (Magnitude.ofBits x.toBits).mantissa
        (Magnitude.ofBits x.toBits).exponent hm := by
  have hunpack := unpack_bits (w := x.toModel.toBits) h
  have hne : (Magnitude.ofBits x.toModel.toBits).mantissa ≠ 0 := hm.ne'
  rw [dif_neg hne, ofBitVec_unpackSign_eq_signOf] at hunpack
  exact hunpack

theorem unpack_zero {x : Float} (h : x.isFinite = true)
    (hm : (Magnitude.ofBits x.toBits).mantissa = 0) : x.toModel.unpack = .zero (signOf x) := by
  have hunpack := unpack_bits (w := x.toModel.toBits) h
  have hzero : (Magnitude.ofBits x.toModel.toBits).mantissa = 0 := hm
  rw [dif_pos hzero, ofBitVec_unpackSign_eq_signOf] at hunpack
  exact hunpack

theorem eq_of_unpack_eq {x y : Float} (hx : x.isNaN = false)
    (h : x.toModel.unpack = y.toModel.unpack) : x = y := by
  have hy : y.toModel.unpack.isNaN = false := h ▸ hx
  have hkeyx := (unpack_cases x.toModel.toBits.toBitVec hx).2
  have hkeyy := (unpack_cases y.toModel.toBits.toBitVec hy).2
  rw [signed_unpackSign] at hkeyx hkeyy
  have hkey := hkeyx.symm.trans ((congrArg orderKeyOf h).trans hkeyy)
  have hltx : x.toModel.toBits.toBitVec.toNat < 2 ^ 64 := x.toModel.toBits.toBitVec.isLt
  have hlty : y.toModel.toBits.toBitVec.toNat < 2 ^ 64 := y.toModel.toBits.toBitVec.isLt
  have hbits : x.toModel.toBits.toBitVec.toNat = y.toModel.toBits.toBitVec.toNat := by
    split at hkey <;> split at hkey <;> omega
  obtain ⟨⟨⟨bx⟩, hbx⟩⟩ := x
  obtain ⟨⟨⟨by'⟩, hby⟩⟩ := y
  obtain rfl : bx = by' := BitVec.eq_of_toNat_eq hbits
  rfl

theorem unpack_infinite {x : Float} (h : x.isInf = true) :
    x.toModel.unpack = .infinity (signOf x) := by
  have h : (unpack Format.binary64 x.toModel.toBits.toBitVec).isInf = true := h
  show unpack Format.binary64 x.toModel.toBits.toBitVec = _
  rw [← ofBitVec_unpackSign_eq_signOf]
  unfold UnpackedFloat.unpack at h ⊢
  dsimp only at h ⊢
  split at h
  · next hinfinite =>
    rw [if_pos hinfinite]
    split at h
    · next hzero => rw [if_pos hzero]
    · cases h
  · split at h
    · split at h <;> cases h
    · cases h

theorem eq_infinite {x : Float} (h : x.isInf = true) :
    x = if isNegative x then -1.0 / 0.0 else 1.0 / 0.0 := by
  have hunpack := unpack_infinite h
  have hx : x.isNaN = false := by
    show x.toModel.unpack.isNaN = false
    rw [hunpack]
    rfl
  refine eq_of_unpack_eq hx ?_
  rw [hunpack, signOf]
  split <;> rfl

theorem isFinite_of_not_isInf {x : Float} (hx : x.isNaN = false) (h : x.isInf = false) :
    x.isFinite = true := by
  have hx : x.toModel.unpack.isNaN = false := hx
  have h : x.toModel.unpack.isInf = false := h
  show x.toModel.unpack.isFinite = true
  generalize x.toModel.unpack = u at hx h
  cases u with
  | notANumber => cases hx
  | infinity => cases h
  | zero => rfl
  | finite => rfl

/-! ## Packing -/

theorem unpackSign_packComponents {spec : Format} {s : Sign} {e : BitVec spec.exponentBits}
    {m : BitVec spec.mantissaBitsWithoutImplicit} :
    unpackSign (packComponents spec s e m) = s.toBitVec := by
  ext i hi
  have hlow : ¬ spec.mantissaBitsWithoutImplicit + spec.exponentBits + i
      < spec.mantissaBitsWithoutImplicit := by omega
  have hmid : ¬ spec.mantissaBitsWithoutImplicit + spec.exponentBits + i
      - spec.mantissaBitsWithoutImplicit < spec.exponentBits := by omega
  have hhigh : spec.mantissaBitsWithoutImplicit + spec.exponentBits + i
      - spec.mantissaBitsWithoutImplicit - spec.exponentBits = i := by omega
  simp [unpackSign, packComponents, BitVec.getLsbD_append, hlow, hmid, hhigh,
    BitVec.getLsbD_eq_getElem, hi]

theorem ofBitVec_toBitVec (s : Sign) : Sign.ofBitVec s.toBitVec = s := by
  cases s <;> rfl

theorem unpack_pack {s : Sign} {m : ℕ} {e : ℤ} {hm : 0 < m}
    (h : Canonical (.finite s m e hm)) :
    unpack Format.binary64 (UnpackedFloat.pack Format.binary64 (.finite s m e hm)) =
      .finite s m e hm := by
  obtain ⟨hshort, hleast, hgreatest, hlong⟩ := h
  have hbias : e + ((Format.binary64.exponentBias : ℕ) : ℤ)
      + (Format.binary64.mantissaBitsWithoutImplicit : ℕ) = e + 1075 := by
    show e + 1023 + 52 = e + 1075
    omega
  have hbias' : ((Format.binary64.exponentBias : ℕ) : ℤ)
      + (Format.binary64.mantissaBitsWithoutImplicit : ℕ) = 1075 := rfl
  have hsmall : ¬ 2 ^ Format.binary64.exponentBits ≤ (e + 1075).toNat + 1 := by
    show ¬ 2048 ≤ (e + 1075).toNat + 1
    omega
  have hbits : Format.binary64.mantissaBits = 53 := rfl
  have hexponent : (BitVec.ofNat Format.binary64.exponentBits (e + 1075).toNat).toNat =
      (e + 1075).toNat := Nat.mod_eq_of_lt (show (e + 1075).toNat < 2048 by omega)
  have hmantissa : (BitVec.ofNat Format.binary64.mantissaBitsWithoutImplicit m).toNat =
      m % 2 ^ 52 := rfl
  unfold UnpackedFloat.pack
  simp only [hbias, if_neg hsmall, hbits]
  by_cases hlog : m.log2 + 1 = 53
  · have hm52 : 2 ^ 52 ≤ m := (Nat.le_log2 hm.ne').mp (by omega)
    rw [if_pos hlog]
    have hinfinite : BitVec.ofNat Format.binary64.exponentBits (e + 1075).toNat ≠ -1#_ := fun h => by
      have hnat : (e + 1075).toNat = 2047 := hexponent.symm.trans (congrArg BitVec.toNat h)
      omega
    have hsubnormal : BitVec.ofNat Format.binary64.exponentBits (e + 1075).toNat ≠ 0#_ := fun h => by
      have hnat : (e + 1075).toNat = 0 := hexponent.symm.trans (congrArg BitVec.toNat h)
      omega
    have hlead := toNat_leadingBit (packComponents Format.binary64 s
      (BitVec.ofNat Format.binary64.exponentBits (e + 1075).toNat)
      (BitVec.ofNat Format.binary64.mantissaBitsWithoutImplicit m))
    rw [unpackMantissa_packComponents, hmantissa] at hlead
    simp only [UnpackedFloat.unpack, unpackSign_packComponents, unpackExponent_packComponents,
      unpackMantissa_packComponents, ofBitVec_toBitVec, hbias', hexponent]
    rw [if_neg hinfinite, if_neg hsubnormal]
    congr 1
    · exact hlead.trans (by omega)
    · omega
  · have hm52 : m < 2 ^ 52 := by
      have : m.log2 < 53 := (Nat.log2_lt hm.ne').mpr hshort
      exact (Nat.log2_lt hm.ne').mp (by omega)
    rw [if_neg hlog]
    have hne : BitVec.ofNat Format.binary64.mantissaBitsWithoutImplicit m ≠ 0#_ := fun h => by
      have hnat : m % 2 ^ 52 = 0 := hmantissa.symm.trans (congrArg BitVec.toNat h)
      rw [Nat.mod_eq_of_lt hm52] at hnat
      exact hm.ne' hnat
    simp only [UnpackedFloat.unpack, unpackSign_packComponents, unpackExponent_packComponents,
      unpackMantissa_packComponents, ofBitVec_toBitVec, hbias', hmantissa]
    rw [if_neg (by decide), if_pos trivial, dif_neg hne]
    have he : e = -1074 := by omega
    subst he
    congr 1
    exact Nat.mod_eq_of_lt hm52

/-! ## Reading decimals -/

theorem canonical_fill {n k : ℕ} (h0 : 0 < n) (h : n.log2 + k = 52) (s : Sign) :
    Canonical (.finite s (n * 2 ^ k) (-k) (Nat.mul_pos h0 (Nat.two_pow_pos k))) := by
  have hshort : n * 2 ^ k < 2 ^ 53 := by
    calc n * 2 ^ k < 2 ^ (n.log2 + 1) * 2 ^ k :=
          Nat.mul_lt_mul_of_pos_right Nat.lt_log2_self (Nat.two_pow_pos _)
      _ = 2 ^ 53 := by rw [← Nat.pow_add]; congr 1; omega
  have hlong : 2 ^ 52 ≤ n * 2 ^ k := by
    rw [← h, Nat.pow_add]
    exact Nat.mul_le_mul_right _ (Nat.log2_self_le h0.ne')
  exact ⟨hshort, by omega, by omega, fun _ => hlong⟩

theorem round_eq_fill {n k : ℕ} (h0 : 0 < n) (h : n.log2 + k = 52) (s : Sign) :
    UnpackedFloat.round Format.binary64 s n 0 =
      .finite s (n * 2 ^ k) (-k) (Nat.mul_pos h0 (Nat.two_pow_pos k)) := by
  have htarget : Format.binary64.targetExponent (totalExponent n 0) = -k := by
    show max ((n.log2 : ℤ) + 1 + 0 - 53) (-1074) = -k
    omega
  have hshift : (0 - -(k : ℤ)).toNat = k := by omega
  have hexponent : (0 : ℤ) - k = -k := by omega
  have hcanonical := canonical_fill h0 h s
  have hlog : (n * 2 ^ k).log2 = 52 := by
    rw [Nat.log2_eq_iff (Nat.mul_pos h0 (Nat.two_pow_pos k)).ne']
    exact ⟨hcanonical.2.2.2 (by omega), hcanonical.1⟩
  have htarget' : -(k : ℤ) ≤ Format.binary64.targetExponent (totalExponent (n * 2 ^ k) (-k)) := by
    show -(k : ℤ) ≤ max (((n * 2 ^ k).log2 : ℤ) + 1 + -k - 53) (-1074)
    omega
  simp only [UnpackedFloat.round, decreaseExponent, htarget, hshift, hexponent, Nat.shiftLeft_eq]
  refine roundWithAccuracy_eq hcanonical ?_ htarget' (roundsTo_self _ _)
  rw [mul_div_cancel_right₀ _ (by positivity)]
  exact Represents.exact _

theorem unpack_toFloat {n k : ℕ} (h0 : 0 < n) (h : n.log2 + k = 52) :
    n.toUInt64.toFloat.toModel.unpack =
      .finite .positive (n * 2 ^ k) (-k) (Nat.mul_pos h0 (Nat.two_pow_pos k)) := by
  have hnat : n.toUInt64.toNat = n := by
    refine Nat.mod_eq_of_lt (Nat.lt_log2_self.trans (Nat.pow_lt_pow_right one_lt_two ?_))
    show n.log2 + 1 < 64
    omega
  have hpositive : compare (n : ℤ) 0 = .gt := Std.compare_eq_gt.mpr (by omega)
  have hround : UnpackedFloat.ofUInt64 Format.binary64 n.toUInt64 =
      .finite .positive (n * 2 ^ k) (-k) (Nat.mul_pos h0 (Nat.two_pow_pos k)) := by
    simp only [UnpackedFloat.ofUInt64, UnpackedFloat.ofNat, UnpackedFloat.ofInt,
      UnpackedFloat.normalize, hnat, hpositive, Int.toNat_natCast]
    exact round_eq_fill h0 h .positive
  show unpack Format.binary64 (UnpackedFloat.pack Format.binary64
    (UnpackedFloat.ofUInt64 Format.binary64 n.toUInt64)) = _
  rw [hround, unpack_pack (canonical_fill h0 h .positive)]

theorem size_powerOfTen : ∀ e : Fin Float.exactlyRepresentablePowersOfTen.size,
    let x := Float.exactlyRepresentablePowersOfTen[e.val]
    let size := Magnitude.ofBits x.toBits
    x.isFinite = true ∧ isNegative x = false ∧ 2 ^ 52 ≤ size.mantissa ∧ -52 ≤ size.exponent ∧
      size.mantissa * 2 ^ (size.exponent + 52).toNat = 10 ^ e.val * 2 ^ 52 := by
  decide +kernel

theorem unpack_powerOfTen {e : ℕ} (he : e < Float.exactlyRepresentablePowersOfTen.size) :
    ∃ m k hm, Float.exactlyRepresentablePowersOfTen[e].toModel.unpack = .finite .positive m k hm ∧
      2 ^ 52 ≤ m ∧ (m : ℚ) * 2 ^ k = 10 ^ e := by
  obtain ⟨hfinite, hsign, hlong, hleast, hvalue⟩ := size_powerOfTen ⟨e, he⟩
  dsimp only at hfinite hsign hlong hleast hvalue
  set x := Float.exactlyRepresentablePowersOfTen[e]
  have hunpack := unpack_finite hfinite (by omega)
  rw [signOf, hsign] at hunpack
  refine ⟨_, _, _, hunpack, hlong, ?_⟩
  obtain ⟨k, hk⟩ := Int.exists_add_of_le hleast
  have hshift : ((Magnitude.ofBits x.toBits).exponent + 52).toNat = k := by omega
  rw [hshift] at hvalue
  have hvalue : ((Magnitude.ofBits x.toBits).mantissa : ℚ) * 2 ^ k = 10 ^ e * 2 ^ 52 := by
    exact_mod_cast hvalue
  rw [hk, zpow_add₀ two_ne_zero, zpow_natCast, mul_left_comm, hvalue, zpow_neg]
  field_simp

section Reading

variable {digits : ℕ} {exponent : ℤ} {m : ℕ} {e : ℤ} {hm : 0 < m}

theorem RoundsTo.bounds {v : ℚ} (h : RoundsTo v m e) (hc : Canonical (.finite .positive m e hm)) :
    2 ^ (-1075 : ℤ) ≤ v ∧ v < 2 ^ (1024 : ℤ) := by
  obtain ⟨hshort, hleast, hgreatest, -⟩ := hc
  have hunit : (0 : ℚ) < 2 ^ e := by positivity
  constructor
  · have hhalf : (1 : ℚ) / 2 ≤ v / 2 ^ e := by
      have : (1 : ℚ) ≤ m := by exact_mod_cast hm
      linarith [h.rounds.lower]
    calc (2 : ℚ) ^ (-1075 : ℤ) ≤ 2 ^ (e - 1) := zpow_le_zpow_right₀ one_le_two (by omega)
      _ = 1 / 2 * 2 ^ e := by rw [zpow_sub_one₀ two_ne_zero]; ring
      _ ≤ v := (le_div_iff₀ hunit).mp hhalf
  · calc v < 2 ^ 53 * 2 ^ e := h.lt hshort
      _ = 2 ^ (53 + e) := by rw [zpow_add₀ two_ne_zero]; rfl
      _ ≤ 2 ^ (1024 : ℤ) := zpow_le_zpow_right₀ one_le_two (by omega)

theorem exponent_bounds (hv : RoundsTo (digits * 10 ^ exponent) m e)
    (hc : Canonical (.finite .positive m e hm)) :
    0 < digits ∧ -1075 ≤ (digits.log2 / 3 : ℕ) + exponent ∧ exponent ≤ 1024 := by
  obtain ⟨hlo, hhi⟩ := hv.bounds hc
  have hpower : (0 : ℚ) < 10 ^ exponent := by positivity
  have hdigits : 0 < digits := by
    refine Nat.pos_of_ne_zero ?_
    rintro rfl
    have : (0 : ℚ) < 2 ^ (-1075 : ℤ) := by positivity
    simp only [Nat.cast_zero, zero_mul] at hlo
    linarith
  refine ⟨hdigits, ?_, ?_⟩
  · by_contra hsmall
    have hlt : (digits : ℚ) < 10 ^ (digits.log2 / 3 + 1) := by
      have : digits < 10 ^ (digits.log2 / 3 + 1) := by
        calc digits < 2 ^ (digits.log2 + 1) := Nat.lt_log2_self
          _ ≤ 2 ^ (3 * (digits.log2 / 3 + 1)) := Nat.pow_le_pow_right two_pos (by omega)
          _ = 8 ^ (digits.log2 / 3 + 1) := Nat.pow_mul ..
          _ ≤ 10 ^ (digits.log2 / 3 + 1) := Nat.pow_le_pow_left (by decide) _
      exact_mod_cast this
    refine absurd hlo (not_le.mpr ?_)
    calc (digits : ℚ) * 10 ^ exponent < 10 ^ (digits.log2 / 3 + 1) * 10 ^ exponent :=
          mul_lt_mul_of_pos_right hlt hpower
      _ = 10 ^ (((digits.log2 / 3 + 1 : ℕ) : ℤ) + exponent) := by
          rw [zpow_add₀ (by norm_num), zpow_natCast]
      _ ≤ 10 ^ (-1075 : ℤ) := zpow_le_zpow_right₀ (by norm_num) (by push_cast; omega)
      _ ≤ 2 ^ (-1075 : ℤ) := by
          rw [zpow_neg, zpow_neg]
          exact inv_anti₀ (by positivity)
            (zpow_le_zpow_left₀ (by norm_num) (by norm_num) (by norm_num))
  · by_contra hbig
    refine absurd hhi (not_lt.mpr ?_)
    have hone : (1 : ℚ) ≤ digits := by exact_mod_cast hdigits
    calc (2 : ℚ) ^ (1024 : ℤ) ≤ 10 ^ (1024 : ℤ) :=
          zpow_le_zpow_left₀ (by norm_num) (by norm_num) (by norm_num)
      _ ≤ 10 ^ exponent := zpow_le_zpow_right₀ (by norm_num) (by omega)
      _ ≤ digits * 10 ^ exponent := le_mul_of_one_le_left hpower.le hone

theorem ten_zpow (exponent : ℤ) : (10 : ℚ) ^ exponent =
    if 0 ≤ exponent then 10 ^ exponent.natAbs else (10 ^ exponent.natAbs)⁻¹ := by
  split
  · next h =>
    rw [← zpow_natCast, Int.natAbs_of_nonneg h]
  · next h =>
    rw [← zpow_natCast, ← zpow_neg, Int.ofNat_natAbs_of_nonpos (by omega), neg_neg]

theorem ofScientific_eq (hv : RoundsTo (digits * 10 ^ exponent) m e)
    (hc : Canonical (.finite .positive m e hm)) :
    UnpackedFloat.ofScientific Format.binary64 digits exponent = .finite .positive m e hm := by
  obtain ⟨hdigits, hlo, hhi⟩ := exponent_bounds hv hc
  have hlimit : ((2 : ℤ) ^ Format.binary64.exponentBits) = 2048 := rfl
  have hbits : Format.binary64.mantissaBits = 53 := rfl
  unfold UnpackedFloat.ofScientific
  rw [dif_neg hdigits.ne', if_neg (by omega), if_neg (by omega)]
  rw [ten_zpow] at hv
  split
  · next h =>
    rw [if_pos h] at hv
    have hpower : 0 < 10 ^ exponent.toNat := Nat.pow_pos (by decide)
    refine mul_eq (s := .positive) (r := .positive) hc ?_ ?_
    · rw [hbits, Nat.shiftLeft_eq]
      calc 2 ^ 52 ≤ 1 * 2 ^ 53 * 1 := by decide
        _ ≤ digits * 2 ^ 53 * 10 ^ exponent.toNat :=
          Nat.mul_le_mul (Nat.mul_le_mul_right _ hdigits) hpower
    · have hnat : exponent.toNat = exponent.natAbs := by omega
      convert hv using 1
      rw [hbits, Nat.shiftLeft_eq, hnat, zpow_zero, mul_one, zpow_neg]
      push_cast
      field_simp
  · next h =>
    rw [if_neg h] at hv
    have hnat : (-exponent).toNat = exponent.natAbs := by omega
    refine div_eq (s := .positive) (r := .positive) hc ?_
    convert hv using 1
    rw [hnat, zpow_zero, mul_one, mul_one, div_eq_mul_inv]
    push_cast
    rfl

theorem float_ofScientific_eq (hv : RoundsTo (digits * 10 ^ exponent) m e)
    (hc : Canonical (.finite .positive m e hm)) :
    (Float.ofScientific digits (exponent < 0) exponent.natAbs).toModel.unpack =
      .finite .positive m e hm := by
  have hdigits := (exponent_bounds hv hc).1
  unfold Float.ofScientific
  split
  · next h =>
    -- Digits and power of ten are values themselves.
    obtain ⟨hshort, hpower⟩ := h
    have hlog : digits.log2 < 53 := (Nat.log2_lt hdigits.ne').mpr hshort
    obtain ⟨k, hk⟩ := Nat.exists_eq_add_of_le (show digits.log2 ≤ 52 by omega)
    have hfill := unpack_toFloat hdigits hk.symm
    obtain ⟨n, j, hn, hten, hlong, hvalue⟩ := unpack_powerOfTen
      (show exponent.natAbs < Float.exactlyRepresentablePowersOfTen.size from
        Nat.lt_succ_of_le hpower)
    have hdigitsValue : ((digits * 2 ^ k : ℕ) : ℚ) * 2 ^ (-k : ℤ) = digits := by
      rw [zpow_neg, zpow_natCast]
      push_cast
      field_simp
    rw [ten_zpow] at hv
    dsimp only
    split
    · next hneg =>
      rw [if_neg (by simpa using hneg), ← div_eq_mul_inv, ← hvalue, ← hdigitsValue] at hv
      show unpack Format.binary64 (UnpackedFloat.pack Format.binary64
        (UnpackedFloat.div Format.binary64 _ _)) = _
      rw [hfill, hten, div_eq (s := .positive) (r := .positive) hc hv]
      exact unpack_pack hc
    · next hneg =>
      rw [if_pos (by simpa using hneg), ← hvalue, ← hdigitsValue] at hv
      show unpack Format.binary64 (UnpackedFloat.pack Format.binary64
        (UnpackedFloat.mul Format.binary64 _ _)) = _
      have hprod : 2 ^ 52 ≤ digits * 2 ^ k * n :=
        hlong.trans (Nat.le_mul_of_pos_left n (Nat.mul_pos hdigits (Nat.two_pow_pos k)))
      rw [hfill, hten, mul_eq (s := .positive) (r := .positive) hc hprod hv]
      exact unpack_pack hc
  · show unpack Format.binary64 (UnpackedFloat.pack Format.binary64
      (UnpackedFloat.ofScientific Format.binary64 digits _)) = _
    have hexponent : (if decide (exponent < 0) = true then Int.negOfNat exponent.natAbs
        else Int.ofNat exponent.natAbs) = exponent := by
      split
      · next h =>
        have h : exponent < 0 := by simpa using h
        rw [Int.negOfNat_eq]
        show -(exponent.natAbs : ℤ) = exponent
        omega
      · next h =>
        have h : 0 ≤ exponent := by simpa using h
        exact Int.natAbs_of_nonneg h
    rw [hexponent, ofScientific_eq hv hc, unpack_pack hc]

theorem nearestFloat_eq (hv : RoundsTo (digits * 10 ^ exponent) m e)
    (hc : Canonical (.finite .positive m e hm)) :
    (nearestFloat digits exponent).toModel.unpack = .finite .positive m e hm := by
  obtain ⟨hdigits, hlo, hhi⟩ := exponent_bounds hv hc
  unfold nearestFloat
  rw [if_neg hdigits.ne', if_neg (by omega), if_neg (by omega)]
  exact float_ofScientific_eq hv hc

end Reading

end Partitura.Number
