import Partitura.Proofs.Number.Binary64

/-!
# The order that numbers are sorted in

The order that sorts times is total and transitive, so sorting by it is stable in
the usual sense. Numbers in that order are in numerical order, and the other way
round unless both are zero or below. For binary floating point the order is read
off the bits: the bits below the sign, taken as a natural number, grow with the
size of the value. Exponent and mantissa are compared one after the other, and
the exponent stands above the mantissa. Of two values that are numbers one is at
most the other.
-/

namespace Partitura

class OrderedScalar (α : Type) [Scalar α] : Prop where
  sortsBefore_total (x y : α) : (Scalar.sortsBefore x y || Scalar.sortsBefore y x) = true
  sortsBefore_trans (x y z : α) : Scalar.sortsBefore x y = true → Scalar.sortsBefore y z = true →
    Scalar.sortsBefore x z = true
  le_of_sortsBefore (x y : α) : Scalar.isUndefined x = false → Scalar.isUndefined y = false →
    Scalar.sortsBefore x y = true → x ≤ y
  sortsBefore_of_le (x y : α) : x ≤ y → 0 < x ∨ 0 < y → Scalar.sortsBefore x y = true

namespace Number

instance : OrderedScalar Rat where
  sortsBefore_total x y := by simpa [Scalar.sortsBefore] using Rat.le_total
  sortsBefore_trans x y z hxy hyz :=
    decide_eq_true (Rat.le_trans (of_decide_eq_true hxy) (of_decide_eq_true hyz))
  le_of_sortsBefore x y _ _ h := of_decide_eq_true h
  sortsBefore_of_le x y h _ := decide_eq_true h

open Float.Model Float.Model.UnpackedFloat

/-- A mantissa and an exponent as they are read off 64 bits: the mantissa has its
leading bit unless the exponent is the least one. -/
def Canonical : UnpackedFloat → Prop
  | .finite _ m e _ => m < 2 ^ 53 ∧ -1074 ≤ e ∧ e ≤ 971 ∧ (-1074 < e → 2 ^ 52 ≤ m)
  | _ => True

def signed : Sign → Nat → Int
  | .negative, n => -(n : Int) - 1
  | .positive, n => n

/-- The place of a value in the order of its bits. -/
def orderKeyOf : UnpackedFloat → Int
  | .infinity s => signed s (2047 * 2 ^ 52)
  | .notANumber => 0
  | .zero s => signed s 0
  | .finite s m e _ => signed s ((e + 1074).toNat * 2 ^ 52 + m)

/-! Reading the fields of 64 bits. -/

section Fields

variable (b : BitVec Format.binary64.numBits)

theorem toNat_unpackMantissa : (unpackMantissa b).toNat = b.toNat % 2 ^ 52 := by
  simp [unpackMantissa, BitVec.extractLsb, BitVec.extractLsb'_toNat]

theorem toNat_unpackExponent : (unpackExponent b).toNat = b.toNat / 2 ^ 52 % 2 ^ 11 := by
  simp [unpackExponent, BitVec.extractLsb, BitVec.extractLsb'_toNat, Nat.shiftRight_eq_div_pow]

theorem toNat_unpackSign : (unpackSign b).toNat = b.toNat / 2 ^ 63 := by
  have hlt : b.toNat < 2 ^ 64 := b.isLt
  simp [unpackSign, BitVec.extractLsb, BitVec.extractLsb'_toNat, Nat.shiftRight_eq_div_pow]
  omega

theorem signed_unpackSign (n : Nat) : signed (Sign.ofBitVec (unpackSign b)) n =
    if 2 ^ 63 ≤ b.toNat then -(n : Int) - 1 else n := by
  have hs := toNat_unpackSign b
  have hlt : b.toNat < 2 ^ 64 := b.isLt
  unfold Sign.ofBitVec
  split
  · rename_i h
    have h0 : b.toNat / 2 ^ 63 = 0 := by rw [← hs, h]; rfl
    rw [if_neg (by omega)]
    rfl
  · rename_i h
    have hne : (unpackSign b).toNat ≠ 0 := fun h0 => h (BitVec.eq_of_toNat_eq h0)
    rw [if_pos (by omega)]
    rfl

theorem toNat_leadingBit :
    (1#1 ++ unpackMantissa b).toNat = 2 ^ 52 + (unpackMantissa b).toNat := by
  have hlt : (unpackMantissa b).toNat < 2 ^ 52 := (unpackMantissa b).isLt
  rw [BitVec.toNat_append, Nat.shiftLeft_eq]
  exact (Nat.two_pow_add_eq_or_of_lt hlt 1).symm

theorem fields_finite {s : Sign} {m E M : Nat} {e : Int} (hm : 0 < m) (hE : E < 2047)
    (hM : M < 2 ^ 52)
    (h : E = 0 ∧ m = M ∧ e = -1074 ∨ E ≠ 0 ∧ m = 2 ^ 52 + M ∧ e = (E : Int) - 1075) :
    Canonical (.finite s m e hm) ∧ orderKeyOf (.finite s m e hm) = signed s (E * 2 ^ 52 + M) := by
  have hkey : (e + 1074).toNat * 2 ^ 52 + m = E * 2 ^ 52 + M := by omega
  simp only [Canonical, orderKeyOf, hkey, and_true]
  omega

theorem unpack_cases (h : (unpack Format.binary64 b).isNaN = false) :
    Canonical (unpack Format.binary64 b) ∧ orderKeyOf (unpack Format.binary64 b) =
      signed (Sign.ofBitVec (unpackSign b)) (b.toNat % 2 ^ 63) := by
  have hm := toNat_unpackMantissa b
  have he := toNat_unpackExponent b
  have hsize : b.toNat % 2 ^ 63 =
      (unpackExponent b).toNat * 2 ^ 52 + (unpackMantissa b).toNat := by omega
  have hM : (unpackMantissa b).toNat < 2 ^ 52 := by omega
  unfold UnpackedFloat.unpack at h ⊢
  dsimp only at h ⊢
  split at h
  · rename_i hinf
    rw [if_pos hinf]
    split at h
    · rename_i h0
      rw [if_pos h0, hsize, hinf, h0]
      exact ⟨trivial, rfl⟩
    · cases h
  · rename_i hfin
    have hE : (unpackExponent b).toNat < 2047 := by
      have hne : (unpackExponent b).toNat ≠ 2047 := fun hE => hfin (BitVec.eq_of_toNat_eq hE)
      omega
    rw [if_neg hfin, hsize]
    split at h
    · rename_i hsub
      rw [if_pos hsub]
      split at h
      · rename_i h0
        rw [dif_pos h0, hsub, h0]
        exact ⟨trivial, rfl⟩
      · have he0 : ((unpackExponent b).toNat : Int) - ((Format.binary64.exponentBias : Nat)
            + (Format.binary64.mantissaBitsWithoutImplicit : Nat)) + 1 = -1074 := by
          rw [hsub]
          rfl
        rw [dif_neg ‹_›]
        exact fields_finite _ hE hM (.inl ⟨congrArg BitVec.toNat hsub, rfl, he0⟩)
    · rename_i hnorm
      have hpos : (unpackExponent b).toNat ≠ 0 := fun hE => hnorm (BitVec.eq_of_toNat_eq hE)
      rw [if_neg hnorm]
      exact fields_finite _ hE hM (.inr ⟨hpos, toNat_leadingBit b, rfl⟩)

end Fields

/-! Comparing values by their keys. -/

theorem isLE_compare_then {e f : Int} {m n : Nat} (h : e < f ∨ e = f ∧ m ≤ n) :
    ((compare e f).then (compare m n)).isLE = true := by
  rcases h with h | ⟨rfl, h⟩
  · rw [Std.compare_eq_lt.mpr h]
    rfl
  · rw [Std.compare_self]
    exact Std.isLE_compare.mpr h

theorem swap_compare_then (e f : Int) (m n : Nat) :
    ((compare e f).then (compare m n)).swap = (compare f e).then (compare n m) := by
  rw [Ordering.swap_then, ← Std.OrientedOrd.eq_swap, ← Std.OrientedOrd.eq_swap]

theorem isLE_swap_compare_then {e f : Int} {m n : Nat} (h : f < e ∨ e = f ∧ n ≤ m) :
    ((compare e f).then (compare m n)).swap.isLE = true := by
  rw [swap_compare_then]
  exact isLE_compare_then (h.imp_right (And.imp_left Eq.symm))

/-- The keys of canonical values compare as the values do. -/
theorem le_of_orderKeyOf_le {u v : UnpackedFloat} (hu : Canonical u) (hv : Canonical v)
    (hun : u.isNaN = false) (hvn : v.isNaN = false) (h : orderKeyOf u ≤ orderKeyOf v) :
    u.le v = true := by
  cases u with
  | notANumber => cases hun
  | infinity s =>
    cases v with
    | notANumber => cases hvn
    | infinity t => cases s <;> cases t <;> first | rfl | exact absurd h (by decide)
    | zero t => cases s <;> first | rfl | exact absurd h (by cases t <;> decide)
    | finite t n f hn =>
      cases s with
      | negative => rfl
      | positive =>
        simp only [orderKeyOf, Canonical] at h hv
        cases t <;> simp only [signed] at h <;> omega
  | zero s =>
    cases v with
    | notANumber => cases hvn
    | infinity t => cases t <;> first | rfl | exact absurd h (by cases s <;> decide)
    | zero t => rfl
    | finite t n f hn =>
      cases t with
      | positive => rfl
      | negative =>
        simp only [orderKeyOf] at h
        cases s <;> simp only [signed] at h <;> omega
  | finite s m e hm =>
    cases v with
    | notANumber => cases hvn
    | infinity t =>
      cases t with
      | positive => rfl
      | negative =>
        simp only [orderKeyOf, Canonical] at h hu
        cases s <;> simp only [signed] at h <;> omega
    | zero t =>
      cases s with
      | negative => rfl
      | positive =>
        simp only [orderKeyOf] at h
        cases t <;> simp only [signed] at h <;> omega
    | finite t n f hn =>
      simp only [orderKeyOf, Canonical] at h hu hv
      cases s <;> cases t <;> simp only [signed] at h
      · exact isLE_swap_compare_then (by omega)
      · rfl
      · omega
      · exact isLE_compare_then (by omega)

def AboveZero : UnpackedFloat → Prop
  | .infinity .positive => True
  | .finite .positive _ _ _ => True
  | _ => False

theorem aboveZero_of_lt {u : UnpackedFloat} {s : Sign} (h : (UnpackedFloat.zero s).lt u = true) :
    AboveZero u := by
  cases u with
  | notANumber => cases h
  | infinity t => cases t with
    | positive => trivial
    | negative => cases h
  | zero t => cases h
  | finite t m e hm => cases t with
    | positive => trivial
    | negative => cases h

theorem AboveZero.of_le {u v : UnpackedFloat} (hu : AboveZero u) (h : u.le v = true) :
    AboveZero v := by
  cases u with
  | notANumber => cases hu
  | zero s => cases hu
  | infinity s =>
    cases s with
    | negative => cases hu
    | positive =>
      cases v with
      | infinity t => cases t with
        | positive => trivial
        | negative => cases h
      | _ => cases h
  | finite s m e hm =>
    cases s with
    | negative => cases hu
    | positive =>
      cases v with
      | notANumber => cases h
      | zero t => cases h
      | infinity t => cases t with
        | positive => trivial
        | negative => cases h
      | finite t n f hn => cases t with
        | positive => trivial
        | negative => cases h

theorem le_of_isLE_compare_then {e f : Int} {m n : Nat}
    (h : ((compare e f).then (compare m n)).isLE = true) : e < f ∨ e = f ∧ m ≤ n := by
  rcases Int.lt_trichotomy e f with hlt | rfl | hgt
  · exact .inl hlt
  · rw [Std.compare_self] at h
    exact .inr ⟨rfl, Std.isLE_compare.mp h⟩
  · rw [Std.compare_eq_gt.mpr hgt] at h
    cases h

theorem orderKeyOf_le_of_le {u v : UnpackedFloat} (hu : Canonical u) (hv : Canonical v)
    (hpos : AboveZero v) (h : u.le v = true) : orderKeyOf u ≤ orderKeyOf v := by
  cases v with
  | notANumber => cases hpos
  | zero t => cases hpos
  | infinity t =>
    cases t with
    | negative => cases hpos
    | positive =>
      cases u with
      | notANumber => cases h
      | infinity s => cases s <;> simp only [orderKeyOf, signed] <;> omega
      | zero s => cases s <;> simp only [orderKeyOf, signed] <;> omega
      | finite s m e hm =>
        simp only [Canonical] at hu
        cases s <;> simp only [orderKeyOf, signed] <;> omega
  | finite t n f hn =>
    cases t with
    | negative => cases hpos
    | positive =>
      cases u with
      | notANumber => cases h
      | infinity s => cases s with
        | negative => simp only [orderKeyOf, signed]; omega
        | positive => cases h
      | zero s => cases s <;> simp only [orderKeyOf, signed] <;> omega
      | finite s m e hm =>
        cases s with
        | negative => simp only [orderKeyOf, signed]; omega
        | positive =>
          have hcmp := le_of_isLE_compare_then h
          simp only [Canonical] at hu hv
          simp only [orderKeyOf, signed]
          omega

theorem not_isNaN_of_le {u v : UnpackedFloat} (h : u.le v = true) :
    u.isNaN = false ∧ v.isNaN = false := by
  cases u <;> cases v <;> first | exact ⟨rfl, rfl⟩ | cases h

theorem orderKey_eq {x : Float} (h : x.isNaN = false) :
    orderKey x = orderKeyOf x.toModel.unpack := by
  obtain ⟨-, hkey⟩ := unpack_cases x.toModel.toBits.toBitVec h
  have hkey : orderKeyOf x.toModel.unpack = _ := hkey
  have hsize : (x.toBits &&& 0x7FFFFFFFFFFFFFFF).toNat = x.toBits.toNat % 2 ^ 63 := by
    rw [UInt64.toNat_and]
    exact Nat.and_two_pow_sub_one_eq_mod _ 63
  rw [hkey, signed_unpackSign]
  unfold orderKey
  dsimp only
  rw [hsize]
  by_cases hneg : 2 ^ 63 ≤ x.toBits.toNat
  · exact (if_pos (decide_eq_true hneg)).trans (if_pos hneg).symm
  · exact (if_neg fun h => hneg (of_decide_eq_true h)).trans (if_neg hneg).symm

theorem le_of_orderKey_le {x y : Float} (hx : x.isNaN = false) (hy : y.isNaN = false)
    (h : orderKey x ≤ orderKey y) : x ≤ y := by
  rw [orderKey_eq hx, orderKey_eq hy] at h
  exact decide_eq_true
    (le_of_orderKeyOf_le (unpack_cases _ hx).1 (unpack_cases _ hy).1 hx hy h)

theorem orderKey_le_of_le {x y : Float} (h : x ≤ y) (hpos : 0 < x ∨ 0 < y) :
    orderKey x ≤ orderKey y := by
  have hle : x.toModel.unpack.le y.toModel.unpack = true := of_decide_eq_true h
  have hx := (not_isNaN_of_le hle).1
  have hy := (not_isNaN_of_le hle).2
  rw [orderKey_eq hx, orderKey_eq hy]
  refine orderKeyOf_le_of_le (unpack_cases _ hx).1 (unpack_cases _ hy).1 ?_ hle
  rcases hpos with hpos | hpos
  · have hlt : (UnpackedFloat.zero .positive).lt x.toModel.unpack = true := of_decide_eq_true hpos
    exact (aboveZero_of_lt hlt).of_le hle
  · have hlt : (UnpackedFloat.zero .positive).lt y.toModel.unpack = true := of_decide_eq_true hpos
    exact aboveZero_of_lt hlt

instance : OrderedScalar Float where
  sortsBefore_total x y := by
    have h : orderKey x ≤ orderKey y ∨ orderKey y ≤ orderKey x := Int.le_total _ _
    simpa [Scalar.sortsBefore] using h
  sortsBefore_trans x y z hxy hyz :=
    decide_eq_true (Int.le_trans (of_decide_eq_true hxy) (of_decide_eq_true hyz))
  le_of_sortsBefore _ _ hx hy h := le_of_orderKey_le hx hy (of_decide_eq_true h)
  sortsBefore_of_le _ _ h hpos := decide_eq_true (orderKey_le_of_le h hpos)

/-! Values that are numbers. -/

theorem compare_eq_swap (u v : UnpackedFloat) :
    u.compare v = (v.compare u).map Ordering.swap := by
  cases u with
  | notANumber => cases v <;> rfl
  | infinity s => cases v with
    | infinity t => cases s <;> cases t <;> rfl
    | _ => cases s <;> rfl
  | zero s => cases v with
    | infinity t => cases t <;> rfl
    | finite t n f hn => cases t <;> rfl
    | _ => rfl
  | finite s m e hm => cases v with
    | notANumber => rfl
    | infinity t => cases t <;> rfl
    | zero t => cases s <;> rfl
    | finite t n f hn =>
      have hswap := congrArg some (swap_compare_then f e n m)
      cases s <;> cases t
      · exact (congrArg (Option.map Ordering.swap) hswap).symm
      · rfl
      · rfl
      · exact hswap.symm

theorem exists_compare {u v : UnpackedFloat} (hu : u.isNaN = false) (hv : v.isNaN = false) :
    ∃ o, u.compare v = some o := by
  cases u with
  | notANumber => cases hu
  | infinity s => cases v with
    | notANumber => cases hv
    | _ => cases s <;> exact ⟨_, rfl⟩
  | zero s => cases v with
    | notANumber => cases hv
    | infinity t => cases t <;> exact ⟨_, rfl⟩
    | zero t => exact ⟨_, rfl⟩
    | finite t n f hn => cases t <;> exact ⟨_, rfl⟩
  | finite s m e hm => cases v with
    | notANumber => cases hv
    | infinity t => cases t <;> exact ⟨_, rfl⟩
    | zero t => cases s <;> exact ⟨_, rfl⟩
    | finite t n f hn => cases s <;> cases t <;> exact ⟨_, rfl⟩

theorem le_of_not_lt {x y : Float} (hx : x.isNaN = false) (hy : y.isNaN = false)
    (h : ¬y < x) : x ≤ y := by
  obtain ⟨o, ho⟩ := exists_compare (u := y.toModel.unpack) (v := x.toModel.unpack) hy hx
  have hlt : o ≠ .lt := fun hlt => h (decide_eq_true (beq_iff_eq.mpr (hlt ▸ ho)))
  have hswap : x.toModel.unpack.compare y.toModel.unpack = some o.swap := by
    rw [compare_eq_swap, ho, Option.map_some]
  refine decide_eq_true ?_
  show (x.toModel.unpack.compare y.toModel.unpack).any Ordering.isLE = true
  rw [hswap]
  cases o with
  | lt => exact absurd rfl hlt
  | _ => rfl

end Number

end Partitura
