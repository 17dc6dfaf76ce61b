import Mathlib
import Partitura.Number.Binary64
import Partitura.Proofs.Number.Lawful

/-!
# Laws of binary floating point

The laws are read off the bit-level definitions of the operations. A result that
is rounded and packed is finite unless its exponent has become too great, so for
integers of 64 bits a rough bound on exponents is enough.
-/

namespace Partitura.Number

open Float.Model Float.Model.UnpackedFloat

/-- Zero, or a finite value whose exponent is at most `k`. -/
def ExponentLE (k : Int) : UnpackedFloat → Prop
  | .zero _ => True
  | .finite _ _ e _ => e ≤ k
  | .infinity _ => False
  | .notANumber => False

def Short : UnpackedFloat → Prop
  | .finite _ m _ _ => m < 2 ^ 53
  | _ => True

theorem isFinite_of_exponentLE {k : Int} {u : UnpackedFloat} (h : ExponentLE k u) :
    u.isFinite = true := by
  cases u with
  | zero => rfl
  | finite => rfl
  | infinity => exact h.elim
  | notANumber => exact h.elim

/-! Unpacking. -/

theorem short_unpack (b : BitVec Format.binary64.numBits) :
    Short (unpack Format.binary64 b) := by
  have hm : (unpackMantissa b).toNat < 2 ^ 52 := (unpackMantissa b).isLt
  unfold UnpackedFloat.unpack
  dsimp only
  split
  · split <;> trivial
  · split
    · split
      · trivial
      · exact Nat.lt_trans hm (by decide)
    · exact (1#1 ++ unpackMantissa b).isLt

theorem exponentLE_unpack {k : Int} (hk : -1074 ≤ k) (b : BitVec Format.binary64.numBits)
    (hb : (unpackExponent b).toNat ≤ 2046) (he : ((unpackExponent b).toNat : Int) - 1075 ≤ k) :
    ExponentLE k (unpack Format.binary64 b) := by
  have hbias : ((Format.binary64.exponentBias : Nat) : Int)
      + (Format.binary64.mantissaBitsWithoutImplicit : Nat) = 1075 := rfl
  unfold UnpackedFloat.unpack
  dsimp only
  split
  · rename_i h
    rw [h] at hb
    exact absurd hb (by decide)
  · split
    · rename_i h
      split
      · trivial
      · simp only [ExponentLE, h, hbias]
        exact hk
    · simpa only [ExponentLE, hbias] using he

theorem isNaN_unpack {b : BitVec Format.binary64.numBits}
    (h : unpackExponent b = -1#_ → unpackMantissa b = 0#_) :
    (unpack Format.binary64 b).isNaN = false := by
  unfold UnpackedFloat.unpack
  dsimp only
  split
  · rename_i hone
    rw [if_pos (h hone)]
    rfl
  · split
    · split <;> rfl
    · rfl

/-! Packing. -/

theorem unpackExponent_packedZero (s : Sign) :
    (unpackExponent (packedZero Format.binary64 s)).toNat = 0 := by
  rw [packedZero, unpackExponent_packComponents]
  rfl

theorem exponentLE_pack {k : Int} (hlo : -1074 ≤ k) (hhi : k ≤ 971) {u : UnpackedFloat}
    (h : ExponentLE k u) :
    ExponentLE k (unpack Format.binary64 (UnpackedFloat.pack Format.binary64 u)) := by
  cases u with
  | infinity => exact h.elim
  | notANumber => exact h.elim
  | zero s =>
    have h0 := unpackExponent_packedZero s
    exact exponentLE_unpack hlo _ (by rw [UnpackedFloat.pack, h0]; decide)
      (by rw [UnpackedFloat.pack, h0]; omega)
  | finite s m e hm =>
    have he : e ≤ k := h
    have hbias : e + ((Format.binary64.exponentBias : Nat) : Int)
        + (Format.binary64.mantissaBitsWithoutImplicit : Nat) = e + 1075 := by
      show e + 1023 + 52 = e + 1075
      omega
    unfold UnpackedFloat.pack
    simp only [hbias]
    split
    · rename_i hbig
      have hbig : 2048 ≤ (e + 1075).toNat + 1 := hbig
      omega
    · have hexp : (BitVec.ofNat Format.binary64.exponentBits (e + 1075).toNat).toNat =
          (e + 1075).toNat := Nat.mod_eq_of_lt (show (e + 1075).toNat < 2048 by omega)
      split
      · refine exponentLE_unpack hlo _ ?_ ?_ <;> rw [unpackExponent_packComponents, hexp] <;> omega
      · refine exponentLE_unpack hlo _ ?_ ?_ <;> rw [unpackExponent_packComponents]
        · decide
        · show (0 : Int) - 1075 ≤ k
          omega

theorem isNaN_pack {u : UnpackedFloat} (h : u.isNaN = false) :
    (unpack Format.binary64 (UnpackedFloat.pack Format.binary64 u)).isNaN = false := by
  cases u with
  | notANumber => cases h
  | infinity s => cases s <;> rfl
  | zero s => cases s <;> rfl
  | finite s m e hm =>
    unfold UnpackedFloat.pack
    dsimp only
    split
    · cases s <;> rfl
    · rename_i hsmall
      split
      · refine isNaN_unpack fun hone => ?_
        rw [unpackExponent_packComponents] at hone
        have hnat := congrArg BitVec.toNat hone
        rw [BitVec.toNat_ofNat, Nat.mod_eq_of_lt (by omega)] at hnat
        have hnat' : _ = 2047 := hnat
        have hsmall' : ¬ 2048 ≤ _ + 1 := hsmall
        omega
      · refine isNaN_unpack fun hone => ?_
        rw [unpackExponent_packComponents] at hone
        exact absurd hone (by decide)

/-! Rounding. -/

theorem mantissa_shiftRight (em : ExtendedMantissa) (n : Nat) :
    (em >>> n).mantissa ≤ em.mantissa := by
  show (n.repeat ExtendedMantissa.shiftRightOne em).mantissa ≤ em.mantissa
  induction n with
  | zero => exact Nat.le_refl _
  | succ n ih => exact Nat.le_trans (Nat.div_le_self _ 2) ih

theorem roundedMantissa_le (em : ExtendedMantissa) : em.roundedMantissa ≤ em.mantissa + 1 := by
  unfold ExtendedMantissa.roundedMantissa Accuracy.roundToNearestEven
  split <;> omega

theorem mantissa_ofMantissaAndAccuracy (m : Nat) (accuracy : Accuracy) :
    (ExtendedMantissa.ofMantissaAndAccuracy m accuracy).mantissa = m := by
  unfold ExtendedMantissa.ofMantissaAndAccuracy
  split <;> rfl

/-- A shift to the exponent of the format drops bits, and moves the exponent no
further than the mantissa has bits. -/
theorem shiftToTargetExponent_le {m a : Nat} (hm : m < 2 ^ a) (e : Int) (accuracy : Accuracy) :
    (shiftToTargetExponent Format.binary64 m e accuracy).1.mantissa ≤ m ∧
      (shiftToTargetExponent Format.binary64 m e accuracy).2 ≤ max (e + a) (-1074) := by
  have hlog : (m.log2 : Int) ≤ a := by
    by_cases h0 : m = 0
    · simp [h0]
    · exact Int.ofNat_le.mpr (Nat.le_of_lt ((Nat.log2_lt h0).mpr hm))
  have hmin : Format.binary64.minExponent = -1074 := rfl
  have hbits : Format.binary64.mantissaBits = 53 := rfl
  unfold shiftToTargetExponent shiftToExponent
  refine ⟨?_, ?_⟩
  · exact Nat.le_trans (mantissa_shiftRight _ _)
      (Nat.le_of_eq (mantissa_ofMantissaAndAccuracy m accuracy))
  · simp only [Format.targetExponent, totalExponent, hmin, hbits]
    omega

theorem exponentLE_roundWithAccuracy {m a : Nat} (hm : m < 2 ^ a) {e k : Int}
    (h : e + 2 * a + 1 ≤ k) (ha : a - 1073 ≤ k) (s : Sign) (accuracy : Accuracy) :
    ExponentLE k (roundWithAccuracy Format.binary64 s m e accuracy) := by
  obtain ⟨hm₁, he₁⟩ := shiftToTargetExponent_le hm e accuracy
  unfold roundWithAccuracy
  generalize shiftToTargetExponent Format.binary64 m e accuracy = first at hm₁ he₁
  obtain ⟨em₁, e₁⟩ := first
  dsimp only at hm₁ he₁ ⊢
  have hr : em₁.roundedMantissa < 2 ^ (a + 1) := by
    have := roundedMantissa_le em₁
    have : m + 1 ≤ 2 ^ a := hm
    have : 2 ^ a < 2 ^ (a + 1) := Nat.pow_lt_pow_right (by decide) (Nat.lt_succ_self a)
    omega
  obtain ⟨-, he₂⟩ := shiftToTargetExponent_le hr e₁ .exact
  split
  · trivial
  · exact Int.le_trans he₂ (by omega)

theorem isNaN_roundWithAccuracy (s : Sign) (m : Nat) (e : Int) (accuracy : Accuracy) :
    (roundWithAccuracy Format.binary64 s m e accuracy).isNaN = false := by
  unfold roundWithAccuracy
  dsimp only
  split <;> rfl

/-! Integers. -/

theorem exponentLE_round {n : Nat} (hn : n < 2 ^ 64) (s : Sign) :
    ExponentLE 300 (UnpackedFloat.round Format.binary64 s n 0) := by
  have hmin : Format.binary64.minExponent = -1074 := rfl
  have hbits : Format.binary64.mantissaBits = 53 := rfl
  unfold UnpackedFloat.round decreaseExponent
  dsimp only
  have hshift : (0 - Format.binary64.targetExponent (totalExponent n 0)).toNat ≤ 64 := by
    simp only [Format.targetExponent, totalExponent, hmin, hbits]
    omega
  generalize (0 - Format.binary64.targetExponent (totalExponent n 0)).toNat = shift at hshift
  have hm : n <<< shift < 2 ^ 128 := by
    rw [Nat.shiftLeft_eq]
    calc n * 2 ^ shift ≤ n * 2 ^ 64 :=
          Nat.mul_le_mul_left n (Nat.pow_le_pow_right (by decide) hshift)
      _ < 2 ^ 128 := by omega
  exact exponentLE_roundWithAccuracy hm (by omega) (by omega) s .exact

theorem exponentLE_ofUInt64 (n : UInt64) :
    ExponentLE 300 n.toFloat.toModel.unpack := by
  refine exponentLE_pack (by decide) (by decide) ?_
  unfold UnpackedFloat.ofUInt64 UnpackedFloat.ofNat UnpackedFloat.ofInt UnpackedFloat.normalize
  split
  · exact exponentLE_round (by have := n.toNat_lt; omega) _
  · trivial
  · exact exponentLE_round (by simpa using n.toNat_lt) _

theorem exponentLE_mul {j k : Int} (h : j + 213 ≤ k) (hk : -967 ≤ k) {u v : UnpackedFloat}
    (hu : ExponentLE j u) (hu' : Short u) (hv : ExponentLE 0 v) (hv' : Short v) :
    ExponentLE k (UnpackedFloat.mul Format.binary64 u v) := by
  cases u with
  | infinity => exact hu.elim
  | notANumber => exact hu.elim
  | zero =>
    cases v with
    | infinity => exact hv.elim
    | notANumber => exact hv.elim
    | zero => trivial
    | finite => trivial
  | finite s m e hm =>
    cases v with
    | infinity => exact hv.elim
    | notANumber => exact hv.elim
    | zero => trivial
    | finite t n f hn =>
      have he : e ≤ j := hu
      have hf : f ≤ 0 := hv
      have hm' : m < 2 ^ 53 := hu'
      have hn' : n < 2 ^ 53 := hv'
      have hmn : m * n < 2 ^ 53 * 2 ^ 53 := Nat.mul_lt_mul'' hm' hn'
      rw [← Nat.pow_add] at hmn
      exact exponentLE_roundWithAccuracy hmn (by omega) (by omega) _ _

theorem exponentLE_ofNat {n : Nat} (hn : n < 2 ^ 64) :
    ExponentLE 971 (Float.ofNat n).toModel.unpack := by
  show ExponentLE 971 (Float.ofScientific n false 0).toModel.unpack
  unfold Float.ofScientific
  split
  · have hone : ExponentLE 0 (Float.ofBits 0x3FF0000000000000).toModel.unpack := by
      show (-52 : Int) ≤ 0
      decide
    have hmul := exponentLE_mul (k := 971) (by decide) (by decide)
      (exponentLE_ofUInt64 n.toUInt64) (short_unpack _) hone (short_unpack _)
    exact exponentLE_pack (by decide) (by decide) hmul
  · rename_i hslow
    refine exponentLE_pack (by decide) (by decide) ?_
    have hbits : Format.binary64.mantissaBits = 53 := rfl
    have hm : (n <<< 53) * 10 ^ Int.toNat 0 < 2 ^ 117 := by
      rw [Nat.shiftLeft_eq, Int.toNat_zero]
      omega
    have hexp : (2 : Int) ^ Format.binary64.exponentBits = 2048 := rfl
    show ExponentLE 971 (UnpackedFloat.ofScientific Format.binary64 n 0)
    unfold UnpackedFloat.ofScientific
    split
    · trivial
    · rw [if_neg (by decide), if_neg (by omega), if_pos (by decide)]
      simp only [UnpackedFloat.mul, hbits]
      generalize n <<< 53 * 10 ^ Int.toNat 0 = m at hm
      exact exponentLE_roundWithAccuracy hm (by decide) (by decide) _ _

theorem exponentLE_neg {k : Int} {u : UnpackedFloat} (h : ExponentLE k u) :
    ExponentLE k u.neg := by
  cases u with
  | infinity => exact h.elim
  | notANumber => exact h.elim
  | zero => trivial
  | finite => exact h

theorem exponentLE_ofInt {n : Int} (hlo : -2 ^ 63 ≤ n) (hhi : n < 2 ^ 64) :
    ExponentLE 971 (Float.ofInt n).toModel.unpack := by
  cases n with
  | ofNat n => exact exponentLE_ofNat (Int.ofNat_lt.mp hhi)
  | negSucc n =>
    exact exponentLE_pack (by decide) (by decide)
      (exponentLE_neg (exponentLE_ofNat (n := n + 1) (by omega)))

/-! Velocities. -/

theorem isNaN_div_steps {x : Float} (h : x.isFinite = true) :
    (x / Float.ofInt 127).isNaN = false := by
  refine isNaN_pack ?_
  have hfinite : x.toModel.unpack.isFinite = true := h
  show (UnpackedFloat.div Format.binary64 x.toModel.unpack
    (.finite .positive (127 * 2 ^ 46) (-46) (by decide))).isNaN = false
  generalize x.toModel.unpack = u at hfinite
  cases u with
  | infinity => cases hfinite
  | notANumber => cases hfinite
  | zero => rfl
  | finite => exact isNaN_roundWithAccuracy _ _ _ _

theorem isFinite_between {x : Float} (h : x.isNaN = false) (hlo : ¬ x < Float.ofInt 0)
    (hhi : ¬ Float.ofInt 1 < x) : x.isFinite = true := by
  have hnum : x.toModel.unpack.isNaN = false := h
  have hlo : UnpackedFloat.lt x.toModel.unpack (.zero .positive) ≠ true :=
    fun h => hlo (decide_eq_true h)
  have hhi : UnpackedFloat.lt (.finite .positive (2 ^ 52) (-52) (by decide))
      x.toModel.unpack ≠ true :=
    fun h => hhi (decide_eq_true h)
  show x.toModel.unpack.isFinite = true
  generalize x.toModel.unpack = u at hnum hlo hhi
  cases u with
  | notANumber => cases hnum
  | zero => rfl
  | finite => rfl
  | infinity s =>
    cases s with
    | negative => exact absurd rfl hlo
    | positive => exact absurd rfl hhi

theorem wholeWithin_mem {lo hi : Int} (h : lo ≤ hi) (x : Float) :
    lo ≤ wholeWithin lo hi x ∧ wholeWithin lo hi x ≤ hi := by
  unfold wholeWithin
  split
  · split
    · exact ⟨Int.le_refl lo, h⟩
    · exact ⟨h, Int.le_refl hi⟩
  · exact clamp_mem h _

theorem isNaN_of_isFinite {x : Float} (h : x.isFinite = true) : x.isNaN = false := by
  have h : x.toModel.unpack.isFinite = true := h
  show x.toModel.unpack.isNaN = false
  generalize x.toModel.unpack = u at h
  cases u with
  | notANumber => cases h
  | infinity => rfl
  | zero => rfl
  | finite => rfl

instance : LawfulScalar Float where
  isFinite_ofInt _ hlo hhi := isFinite_of_exponentLE (exponentLE_ofInt hlo (by omega))
  isUndefined_div _ := isNaN_div_steps
  isFinite_of_unit _ := isFinite_between
  wholeWithin_mem _ _ x h := wholeWithin_mem h x
  isUndefined_of_isFinite _ := isNaN_of_isFinite

end Partitura.Number
