import Mathlib.Algebra.Order.Round
import Mathlib.Data.List.TakeWhile
import Mathlib.Data.Nat.Cast.Field
import Mathlib.Tactic.Linarith
import Mathlib.Tactic.FieldSimp
import Mathlib.Tactic.NormNum
import Partitura.Proofs.Number.Digits
import Partitura.Proofs.Number.Exact
import Partitura.Proofs.Text.Lines
import Partitura.Script.Basic

/-!
# Lengths are read back

A length in beats is written as a decimal, or as a fraction where it lies on a grid of triplets.
A length that is a multiple of a sixty-fourth, or of a twenty-fourth, is read back exactly, also
from the text of a row, where it stands between the last two commas. Any other length is read back
within half a millionth.
-/

namespace Partitura.Script

open Number

def readBeats? (s : String) : Option Rat :=
  match Text.splitFirst '/' s with
  | some (num, den) => do
    let n ← natural? num.toList
    let d ← natural? den.toList
    if d = 0 then none else some ((n : Rat) / d)
  | none => scalar? s

/-! ## Decimals -/

theorem writeFixed_eq {places : Nat} (hplaces : 0 < places) (scaled : Nat) :
    ∃ whole fraction, (writeFixed places scaled).toList = whole ++ '.' :: fraction ∧ Digits whole ∧
      (∀ c ∈ fraction, c.isDigit = true) ∧ fraction.length = places ∧
      valueOfDigits 0 (whole ++ fraction) = scaled := by
  have hpadded : Digits (zeros (places + 1 - (toString scaled).length) ++ toString scaled).toList := by
    rw [String.toList_append]
    refine ⟨by simp, fun c hc => ?_⟩
    exact (List.mem_append.mp hc).elim isDigit_of_mem_zeros ((digits_toString scaled).2 c)
  have hlong : places < (zeros (places + 1 - (toString scaled).length)
      ++ toString scaled).toList.length := by
    have hlength : (toString scaled).toList.length = (toString scaled).length := rfl
    rw [String.toList_append, List.length_append, zeros, String.toList_ofList,
      List.length_replicate, hlength]
    omega
  have hvalue : valueOfDigits 0 (zeros (places + 1 - (toString scaled).length)
      ++ toString scaled).toList = scaled := by
    rw [String.toList_append, valueOfDigits_append, valueOfDigits_zeros, Nat.mul_zero,
      valueOfDigits_toString]
  unfold writeFixed
  dsimp only
  rw [if_neg hplaces.ne']
  generalize (zeros (places + 1 - (toString scaled).length) ++ toString scaled).toList = padded at *
  refine ⟨padded.take (padded.length - places), padded.drop (padded.length - places), ?_, ⟨?_, ?_⟩,
    ?_, ?_, ?_⟩
  · simp
  · rw [Ne, List.take_eq_nil_iff, not_or]
    exact ⟨by omega, hpadded.1⟩
  · exact fun c hc => hpadded.2 c (List.mem_of_mem_take hc)
  · exact fun c hc => hpadded.2 c (List.mem_of_mem_drop hc)
  · rw [List.length_drop]
    omega
  · rw [List.take_append_drop, hvalue]

theorem dropWhile_of_digits {cs : List Char} (h : ∀ c ∈ cs, c.isDigit = true) (hne : cs ≠ [])
    (rest : List Char) :
    (cs ++ rest).dropWhile (· == '.') = cs ++ rest := by
  obtain ⟨c, later, rfl⟩ := List.exists_cons_of_ne_nil hne
  have hc : c ≠ '.' := ne_of_test (h c List.mem_cons_self) rfl
  rw [List.cons_append, List.dropWhile_cons_of_neg (by simpa using hc)]

theorem dropZeros_point {s : String} {whole fraction : List Char}
    (hs : s.toList = whole ++ '.' :: fraction) (hw : Digits whole)
    (hf : ∀ c ∈ fraction, c.isDigit = true) :
    ∃ kept n, fraction = kept ++ List.replicate n '0' ∧
      (dropZeros s).toList = if kept = [] then whole else whole ++ '.' :: kept := by
  have hzeros : fraction.reverse.takeWhile (· == '0') =
      List.replicate (fraction.reverse.takeWhile (· == '0')).length '0' :=
    List.eq_replicate_of_mem fun c hc => by simpa using List.mem_takeWhile_imp hc
  have hsplit := List.takeWhile_append_dropWhile (p := (· == '0')) (l := fraction.reverse)
  have hdrop : (fraction.reverse ++ '.' :: whole.reverse).dropWhile (· == '0') =
      fraction.reverse.dropWhile (· == '0') ++ '.' :: whole.reverse := by
    rw [List.dropWhile_append]
    split
    · next hnone => simp [List.isEmpty_iff.mp hnone]
    · rfl
  have hkept : ∀ c ∈ fraction.reverse.dropWhile (· == '0'), c.isDigit = true := fun c hc =>
    hf c (List.mem_reverse.mp ((List.dropWhile_sublist _).subset hc))
  refine ⟨(fraction.reverse.dropWhile (· == '0')).reverse,
    (fraction.reverse.takeWhile (· == '0')).length, ?_, ?_⟩
  · rw [← List.reverse_replicate, ← List.reverse_append, ← hzeros, hsplit, List.reverse_reverse]
  · unfold dropZeros
    rw [String.toList_ofList, hs, List.reverse_append, List.reverse_cons, List.append_assoc,
      List.singleton_append, hdrop]
    generalize fraction.reverse.dropWhile (· == '0') = left at hkept
    by_cases hleft : left = []
    · have hwhole := dropWhile_of_digits (fun c hc => hw.2 c (List.mem_reverse.mp hc))
        (by simpa using hw.1) []
      rw [List.append_nil] at hwhole
      simp [hleft, hwhole]
    · rw [dropWhile_of_digits hkept hleft, if_neg (by simpa using hleft)]
      simp

theorem fixedText_of_nonneg (places : Nat) {x : Rat} (hx : 0 ≤ x) : Scalar.fixedText places x =
    writeFixed places (roundQuotient (x.num.natAbs * 10 ^ places) x.den .even) := by
  show fixedTextOfRat places x = _
  unfold fixedTextOfRat
  dsimp only
  rw [if_neg hx.not_gt, String.empty_append, Nat.pow_eq]

/-- A decimal has digits, and maybe more of them behind a point, that hold all of its value. -/
theorem decimalText_eq {places : Nat} (hplaces : 0 < places) {x : Rat} (hx : 0 ≤ x) :
    ∃ whole kept n, Digits whole ∧ (∀ c ∈ kept, c.isDigit = true) ∧ places = kept.length + n ∧
      (decimalText places x).toList = (if kept = [] then whole else whole ++ '.' :: kept) ∧
      roundQuotient (x.num.natAbs * 10 ^ places) x.den .even =
        10 ^ n * valueOfDigits 0 (whole ++ kept) := by
  have hfixed := fixedText_of_nonneg places hx
  generalize roundQuotient (x.num.natAbs * 10 ^ places) x.den .even = scaled at *
  obtain ⟨whole, fraction, htext, hwhole, hfraction, hlength, hvalue⟩ :=
    writeFixed_eq hplaces scaled
  obtain ⟨kept, n, hzeros, hdropped⟩ := dropZeros_point htext hwhole hfraction
  refine ⟨whole, kept, n, hwhole, fun c hc => hfraction c ?_, ?_, ?_, ?_⟩
  · rw [hzeros]
    exact List.mem_append_left _ hc
  · rw [← hlength, hzeros, List.length_append, List.length_replicate]
  · rw [← hdropped]
    obtain ⟨c, later, rfl⟩ := List.exists_cons_of_ne_nil hwhole.1
    have hc := hwhole.2 c List.mem_cons_self
    obtain ⟨rest, hrest⟩ : ∃ rest, (dropZeros (writeFixed places scaled)).toList = c :: rest := by
      rw [hdropped]
      split
      · exact ⟨_, rfl⟩
      · exact ⟨_, rfl⟩
    unfold decimalText
    rw [if_pos (show Scalar.isFinite x = true from rfl), hfixed]
    dsimp only
    rw [if_neg]
    rintro (hzero | hempty)
    · rw [hzero] at hrest
      exact ne_of_test hc (d := '-') rfl (List.cons.inj hrest).1.symm
    · rw [hempty] at hrest
      cases hrest
  · have hreplicate : (zeros n).toList = List.replicate n '0' := String.toList_ofList
    rw [← valueOfDigits_zeros, hreplicate, ← valueOfDigits_append, List.append_assoc, ← hzeros,
      hvalue]

theorem scalar?_decimalText {places : Nat} (hplaces : 0 < places) {x : Rat} (hx : 0 ≤ x) :
    scalar? (decimalText places x) =
      some ((roundQuotient (x.num.natAbs * 10 ^ places) x.den .even : Rat) / 10 ^ places) := by
  obtain ⟨whole, kept, n, hwhole, hkept, hplaced, htext, hvalue⟩ := decimalText_eq hplaces hx
  have hwrites : WritesOut (decimalText places x).toList
      (valueOfDigits 0 (whole ++ kept) / 10 ^ kept.length) := by
    rw [htext]
    split
    · next hnone =>
      rw [hnone, List.append_nil, List.length_nil, pow_zero, div_one]
      exact .whole hwhole
    · next hsome => exact .point hwhole ⟨hsome, hkept⟩
  have hquotient : ((10 ^ n * valueOfDigits 0 (whole ++ kept) : Nat) : Rat) / 10 ^ places =
      valueOfDigits 0 (whole ++ kept) / 10 ^ kept.length := by
    rw [hplaced, pow_add]
    push_cast
    field_simp
  rw [scalar?_of_writesOut hwrites, hvalue, hquotient]

theorem roundQuotient_bounds (num : Nat) {den : Nat} (hden : 0 < den) (tie : Tie) :
    2 * (den * roundQuotient num den tie) ≤ 2 * num + den ∧
      2 * num ≤ 2 * (den * roundQuotient num den tie) + den := by
  have hsplit := Nat.div_add_mod num den
  have hless := Nat.mod_lt num hden
  unfold roundQuotient
  dsimp only
  split
  · next hbelow =>
    have hbelow := Nat.compare_eq_lt.mp hbelow
    omega
  · next habove =>
    have habove := Nat.compare_eq_gt.mp habove
    rw [Nat.mul_succ]
    omega
  · next hhalf =>
    have hhalf := Nat.compare_eq_eq.mp hhalf
    rw [Nat.mul_succ]
    omega
  · next hhalf =>
    have hhalf := Nat.compare_eq_eq.mp hhalf
    split
    · omega
    · rw [Nat.mul_succ]
      omega

theorem abs_roundQuotient_sub_le (num : Nat) {den : Nat} (hden : 0 < den) (tie : Tie) :
    |(roundQuotient num den tie : Rat) - num / den| ≤ 1 / 2 := by
  have hpos : (0 : Rat) < den := Nat.cast_pos.mpr hden
  obtain ⟨hlow, hhigh⟩ := roundQuotient_bounds num hden tie
  generalize roundQuotient num den tie = q at *
  have hlow' : 2 * (den * q : Rat) ≤ 2 * num + den := by exact_mod_cast hlow
  have hhigh' : 2 * (num : Rat) ≤ 2 * (den * q) + den := by exact_mod_cast hhigh
  have hdiff : (q : Rat) - num / den = (den * q - num) / den := by field_simp
  rw [hdiff, abs_div, abs_of_pos hpos, div_le_iff₀ hpos, abs_le]
  constructor <;> linarith

theorem natAbs_num_div_den {x : Rat} (hx : 0 ≤ x) : (x.num.natAbs : Rat) / x.den = x := by
  rw [← Int.cast_natCast, Int.natAbs_of_nonneg (Rat.num_nonneg.mpr hx)]
  exact Rat.num_div_den x

theorem exists_scalar?_decimalText {places : Nat} (hplaces : 0 < places) {x : Rat} (hx : 0 ≤ x) :
    ∃ y, scalar? (decimalText places x) = some y ∧ |y - x| ≤ 1 / 2 / 10 ^ places := by
  have hround := abs_roundQuotient_sub_le (x.num.natAbs * 10 ^ places) x.den_pos .even
  refine ⟨_, scalar?_decimalText hplaces hx, ?_⟩
  generalize roundQuotient (x.num.natAbs * 10 ^ places) x.den .even = scaled at *
  have hten : (0 : Rat) < 10 ^ places := by positivity
  have hdiff : (scaled : Rat) / 10 ^ places - x =
      (scaled - (x.num.natAbs * 10 ^ places : Nat) / x.den) / 10 ^ places := by
    push_cast
    rw [mul_div_right_comm, natAbs_num_div_den hx]
    field_simp
  rw [hdiff, abs_div, abs_of_pos hten]
  exact div_le_div_of_nonneg_right hround hten.le

theorem roundQuotient_mul (n : Nat) {den : Nat} (hden : 0 < den) :
    roundQuotient (n * den) den .even = n := by
  have hcompare : compare (2 * (n * den % den)) den = .lt := by
    rw [Nat.mul_mod_left, Nat.mul_zero]
    exact Nat.compare_eq_lt.mpr hden
  simp only [roundQuotient, hcompare, Nat.mul_div_cancel n hden]

theorem scalar?_decimalText_of_eq {places : Nat} (hplaces : 0 < places) {x : Rat} {n : Nat}
    (hx : x = n / 10 ^ places) : scalar? (decimalText places x) = some x := by
  have hpos : 0 ≤ x := by
    rw [hx]
    positivity
  have hscaled : x.num.natAbs * 10 ^ places = n * x.den := by
    have hden : (x.den : Rat) ≠ 0 := Nat.cast_ne_zero.mpr x.den_ne_zero
    have hnum := (div_eq_iff hden).mp (natAbs_num_div_den hpos)
    have hcast : ((x.num.natAbs * 10 ^ places : Nat) : Rat) = (n * x.den : Nat) := by
      push_cast
      rw [hnum]
      nth_rewrite 1 [hx]
      field_simp
    exact_mod_cast hcast
  rw [scalar?_decimalText hplaces hpos, hscaled, roundQuotient_mul n x.den_pos, ← hx]

/-! ## Fractions -/

theorem readBeats?_fraction (num : Nat) {den : Nat} (hden : 0 < den) :
    readBeats? (toString num ++ "/" ++ toString den) = some ((num : Rat) / den) := by
  have hsplit : Text.splitFirst '/' (toString num ++ "/" ++ toString den) =
      some (toString num, toString den) :=
    splitFirst_append fun hmem => absurd (isDigit_of_mem_toString hmem) (by decide)
  unfold readBeats?
  rw [hsplit]
  simp only [natural?_of_digits (digits_toString _), valueOfDigits_toString, Option.bind_eq_bind,
    Option.bind_some, hden.ne', if_false]

theorem longWord_round {x : Rat} (hx : 0 ≤ x) (hlt : x < 2 ^ 63) :
    (Scalar.longWord (Scalar.round x) : Int) = roundHalfAway x := by
  have hround := roundHalfAway_of_nonneg hx
  have hnonneg : 0 ≤ roundHalfAway x := by
    rw [hround]
    exact Int.floor_nonneg.mpr (by linarith)
  have hsmall : roundHalfAway x < 2 ^ 64 := by
    rw [hround, Int.floor_lt]
    push_cast
    linarith
  show ((Scalar.longWord ((roundHalfAway x : Int) : Rat) : Nat) : Int) = _
  rw [longWord_intCast]
  omega

theorem exists_fractionText (x : Rat) {den : Nat} (hden : 0 < den) :
    ∃ n d : Nat, fractionText x den = toString n ++ "/" ++ toString d ∧ n.Coprime d ∧ d ∣ den ∧
      0 < d ∧ (n : Rat) / d = Scalar.longWord (Scalar.round (x * Scalar.ofInt den)) / den := by
  unfold fractionText
  dsimp only
  generalize Scalar.longWord (Scalar.round (x * Scalar.ofInt den)) = num
  have hgcd : 0 < Nat.gcd num den := Nat.gcd_pos_of_pos_right num hden
  refine ⟨num / Nat.gcd num den, den / Nat.gcd num den, rfl, Nat.coprime_div_gcd_div_gcd hgcd,
    Nat.div_dvd_of_dvd (Nat.gcd_dvd_right num den), ?_, ?_⟩
  · exact Nat.div_pos (Nat.gcd_le_right num hden) hgcd
  · rw [Nat.cast_div_charZero (Nat.gcd_dvd_left num den),
      Nat.cast_div_charZero (Nat.gcd_dvd_right num den),
      div_div_div_cancel_right₀ (Nat.cast_ne_zero.mpr hgcd.ne')]

theorem readBeats?_fractionText {x : Rat} {den : Nat} (hx : 0 ≤ x) (hden : 0 < den)
    (hsmall : x * den < 2 ^ 63) :
    readBeats? (fractionText x den) = some ((roundHalfAway (x * den) : Rat) / den) := by
  obtain ⟨n, d, htext, -, -, hd, hvalue⟩ := exists_fractionText x hden
  have hnum := longWord_round (mul_nonneg hx den.cast_nonneg) hsmall
  rw [htext, readBeats?_fraction n hd, hvalue, ← hnum]
  rfl

/-! ## Grids -/

theorem isOnGrid_eq (x : Rat) (den : Nat) : isOnGrid x den = true ↔
    |x * den - roundHalfAway (x * den)| < 1 / 1000000 := by
  have htolerance : exactDecimalValue 1 (-6) = 1 / 1000000 := by decide +kernel
  rw [← htolerance, ← magnitude_eq_abs, ← Int.cast_natCast den]
  exact decide_eq_true_iff

theorem isOnGrid_of_onGrid {x : Rat} (hx : 0 ≤ x) {den : Nat} (hden : 0 < den)
    (h : OnGrid den x) : isOnGrid x den = true := by
  obtain ⟨n, rfl⟩ := h.exists_nat hden hx
  rw [isOnGrid_eq, div_mul_cancel₀ _ (Nat.cast_ne_zero.mpr hden.ne'), roundHalfAway_natCast,
    Int.cast_natCast, sub_self, abs_zero]
  norm_num

theorem onGrid_of_isOnGrid {x : Rat} (h : OnGrid 24 x) {den : Nat} (hden : 0 < den)
    (hnear : isOnGrid x den = true) : OnGrid den x := by
  obtain ⟨n, rfl⟩ := h
  rw [isOnGrid_eq] at hnear
  generalize roundHalfAway ((n : Rat) / (24 : Nat) * den) = m at hnear
  have hdiff : ((n * den - 24 * m : Int) : Rat) = 24 * ((n : Rat) / (24 : Nat) * den - m) := by
    push_cast
    ring
  have hlt : |((n * den - 24 * m : Int) : Rat)| < 1 := by
    rw [hdiff, abs_mul, abs_of_pos (by norm_num : (0 : Rat) < 24)]
    linarith
  have hzero : n * den - 24 * m = 0 := Int.abs_lt_one_iff.mp (by exact_mod_cast hlt)
  refine ⟨m, ?_⟩
  rw [hzero, Int.cast_zero] at hdiff
  rw [eq_div_iff (Nat.cast_ne_zero.mpr hden.ne')]
  linarith

theorem slash_notMem_decimalText {x : Rat} (hx : 0 ≤ x) : '/' ∉ (decimalText 6 x).toList := by
  obtain ⟨whole, kept, -, hwhole, hkept, -, htext, -⟩ := decimalText_eq (show 0 < 6 by decide) hx
  have hdigit {cs : List Char} (h : ∀ c ∈ cs, c.isDigit = true) : '/' ∉ cs :=
    fun hmem => absurd (h '/' hmem) (by decide)
  intro hmem
  rw [htext] at hmem
  split at hmem
  · exact hdigit hwhole.2 hmem
  · rcases List.mem_append.mp hmem with hmem | hmem
    · exact hdigit hwhole.2 hmem
    · exact hdigit hkept (List.mem_of_ne_of_mem (by decide) hmem)

theorem readBeats?_decimalText {x : Rat} (hx : 0 ≤ x) :
    readBeats? (decimalText 6 x) = scalar? (decimalText 6 x) := by
  unfold readBeats?
  rw [splitFirst_eq_none (slash_notMem_decimalText hx)]

theorem readBeats?_decimalText_of_onGrid {x : Rat} (hx : 0 ≤ x) (hgrid : OnGrid 64 x) :
    readBeats? (decimalText 6 x) = some x := by
  obtain ⟨n, rfl⟩ := hgrid.exists_nat (by decide) hx
  rw [readBeats?_decimalText hx]
  refine scalar?_decimalText_of_eq (n := n * 15625) (by decide) ?_
  push_cast
  ring

theorem mem_tripletGrids : ∀ den ∈ tripletGrids, 3 ≤ den ∧ den ∣ 24 := by decide

theorem mul_lt_of_mem_tripletGrids {x : Rat} (hx : 0 ≤ x) (hlt : x < 2 ^ 53) {den : Nat}
    (hden : den ∈ tripletGrids) : x * den < 2 ^ 63 := by
  have hle : (den : Rat) ≤ 24 := by
    exact_mod_cast Nat.le_of_dvd (by decide) (mem_tripletGrids den hden).2
  calc x * den ≤ x * 24 := mul_le_mul_of_nonneg_left hle hx
    _ < 2 ^ 63 := by linarith

theorem readBeats?_beatsText {x : Rat} (hx : 0 ≤ x) (hlt : x < 2 ^ 53)
    (hgrid : OnGrid 24 x ∨ OnGrid 64 x) : readBeats? (beatsText x) = some x := by
  by_cases hbinary : OnGrid 64 x
  · have hnear := isOnGrid_of_onGrid hx (by decide) hbinary
    unfold beatsText
    rw [hnear, Bool.not_true, Bool.and_false, if_neg Bool.false_ne_true]
    exact readBeats?_decimalText_of_onGrid hx hbinary
  · have htriplet := hgrid.resolve_right hbinary
    have hfar : isOnGrid x 64 = false :=
      Bool.eq_false_iff.mpr fun hnear => hbinary (onGrid_of_isOnGrid htriplet (by decide) hnear)
    have hpos : Scalar.isPositive x = true := by
      have hne : x ≠ 0 := by
        rintro rfl
        exact hbinary ⟨0, by simp⟩
      exact decide_eq_true (lt_of_le_of_ne hx hne.symm)
    unfold beatsText
    rw [hpos, hfar, Bool.not_false, Bool.and_true, if_pos rfl]
    cases hfind : tripletGrids.find? (isOnGrid x) with
    | none =>
      have hnone := List.find?_eq_none.mp hfind 24 (by decide)
      exact absurd (isOnGrid_of_onGrid hx (by decide) htriplet) hnone
    | some den =>
      have hmem := List.mem_of_find?_eq_some hfind
      have hden : 0 < den := Nat.zero_lt_of_lt (mem_tripletGrids den hmem).1
      have hne : (den : Rat) ≠ 0 := Nat.cast_ne_zero.mpr hden.ne'
      have hgrid := onGrid_of_isOnGrid htriplet hden (List.find?_some hfind)
      obtain ⟨n, hn⟩ := hgrid.exists_nat hden hx
      have hscaled : x * den = n := by rw [hn, div_mul_cancel₀ _ hne]
      show readBeats? (fractionText x den) = some x
      rw [readBeats?_fractionText hx hden (mul_lt_of_mem_tripletGrids hx hlt hmem), hscaled,
        roundHalfAway_natCast, Int.cast_natCast, ← hn]

/-! ## Any length -/

/-- A length is a decimal, or a fraction on a grid of triplets that it is near to. -/
theorem beatsText_cases (x : Rat) : beatsText x = decimalText 6 x ∨
    ∃ den ∈ tripletGrids, isOnGrid x den = true ∧ beatsText x = fractionText x den := by
  unfold beatsText
  split
  · split
    · next den hfind =>
      exact .inr ⟨den, List.mem_of_find?_eq_some hfind, List.find?_some hfind, rfl⟩
    · exact .inl rfl
  · exact .inl rfl

theorem exists_readBeats? {x : Rat} (hx : 0 ≤ x) (hlt : x < 2 ^ 53) :
    ∃ y, readBeats? (beatsText x) = some y ∧ |y - x| ≤ 1 / 2000000 := by
  rcases beatsText_cases x with htext | ⟨den, hden, hnear, htext⟩
  · obtain ⟨y, hread, hy⟩ := exists_scalar?_decimalText (show 0 < 6 by decide) hx
    refine ⟨y, ?_, hy.trans (by norm_num)⟩
    rw [htext, readBeats?_decimalText hx, hread]
  · have hthree := (mem_tripletGrids den hden).1
    have hsmall := mul_lt_of_mem_tripletGrids hx hlt hden
    refine ⟨_, by rw [htext, readBeats?_fractionText hx (by omega) hsmall], ?_⟩
    rw [isOnGrid_eq] at hnear
    have hthree' : (3 : Rat) ≤ den := by exact_mod_cast hthree
    have hpos : (0 : Rat) < den := by linarith
    have hdiff : (roundHalfAway (x * den) : Rat) / den - x =
        -((x * den - roundHalfAway (x * den)) / den) := by
      field_simp
      ring
    rw [hdiff, abs_neg, abs_div, abs_of_pos hpos, div_le_iff₀ hpos]
    linarith

/-- The text of a length names a number that is at most half a millionth away from it, and the
length itself on a grid. If it is a fraction, that is one in lowest terms of 24ths. -/
theorem near_beatsText {x : Rat} (hx : 0 ≤ x) (hlt : x < 2 ^ 53) :
    (∃ y, readBeats? (beatsText x) = some y ∧ |y - x| ≤ 1 / 2000000 ∧
      (OnGrid 24 x ∨ OnGrid 64 x → y = x)) ∧
    ('/' ∉ (beatsText x).toList ∨ ∃ n d : Nat,
      beatsText x = toString n ++ "/" ++ toString d ∧ n.Coprime d ∧ d ∣ 24) := by
  obtain ⟨y, hread, hnear⟩ := exists_readBeats? hx hlt
  refine ⟨⟨y, hread, hnear, fun hgrid => ?_⟩, ?_⟩
  · have hexact := readBeats?_beatsText hx hlt hgrid
    exact Option.some.inj (hread.symm.trans hexact)
  · rcases beatsText_cases x with htext | ⟨den, hmem, -, htext⟩
    · rw [htext]
      exact .inl (slash_notMem_decimalText hx)
    · obtain ⟨hthree, hdvd⟩ := mem_tripletGrids den hmem
      obtain ⟨n, d, hfraction, hlowest, hd, -, -⟩ := exists_fractionText x (show 0 < den by omega)
      exact .inr ⟨n, d, htext.trans hfraction, hlowest, hd.trans hdvd⟩

/-- A length that is not quite four thirds, and on neither grid. -/
theorem near_beatsText_fourThirds :
    let x : Rat := 6666667 / 5000000
    (0 ≤ x ∧ x < 2 ^ 53) ∧ beatsText x = "4/3" ∧
    (∃ y, readBeats? (beatsText x) = some y ∧ |y - x| ≤ 1 / 2000000 ∧
      (OnGrid 24 x ∨ OnGrid 64 x → y = x)) ∧
    ('/' ∉ (beatsText x).toList ∨ ∃ n d : Nat,
      beatsText x = toString n ++ "/" ++ toString d ∧ n.Coprime d ∧ d ∣ 24) := by
  intro x
  have hx : 0 ≤ x := by decide +kernel
  have hlt : x < 2 ^ 53 := by decide +kernel
  exact ⟨⟨hx, hlt⟩, by decide +kernel, near_beatsText hx hlt⟩

/-! ## Rows -/

def lengthField (row : String) : String :=
  let earlier := (row.toList.reverse.dropWhile (· != ',')).drop 1
  Text.trim (String.ofList (earlier.takeWhile (· != ',')).reverse)

def readLength? (row : String) : Option Rat := readBeats? (lengthField row)

def isNumberChar (c : Char) : Bool := c.isDigit || c ∈ ['.', '-', '/']

theorem isNumberChar_of_digits {cs : List Char} (h : ∀ c ∈ cs, c.isDigit = true) :
    ∀ c ∈ cs, isNumberChar c = true := fun c hc => by simp [isNumberChar, h c hc]

theorem isNumberChar_of_all {s : String} (h : s.toList.all isNumberChar = true) :
    ∀ c ∈ s.toList, isNumberChar c = true := List.all_eq_true.mp h

theorem dropZeros_subset (s : String) : (dropZeros s).toList ⊆ s.toList := by
  unfold dropZeros
  dsimp only
  rw [String.toList_ofList]
  intro c hc
  have hkept := (List.dropWhile_sublist _).subset (List.mem_reverse.mp hc)
  exact List.mem_reverse.mp ((List.dropWhile_sublist _).subset hkept)

theorem isNumberChar_decimalText {places : Nat} (hplaces : 0 < places) (x : Rat) :
    ∀ c ∈ (decimalText places x).toList, isNumberChar c = true := by
  have hfixed : ∀ c ∈ (fixedTextOfRat places x).toList, isNumberChar c = true := by
    obtain ⟨whole, fraction, htext, hwhole, hfraction, -, -⟩ :=
      writeFixed_eq hplaces (roundQuotient (x.num.natAbs * Nat.pow 10 places) x.den .even)
    unfold fixedTextOfRat
    dsimp only
    rw [String.toList_append, htext]
    refine List.forall_mem_append.mpr ⟨?_, List.forall_mem_append.mpr
      ⟨isNumberChar_of_digits hwhole.2, List.forall_mem_cons.mpr
        ⟨rfl, isNumberChar_of_digits hfraction⟩⟩⟩
    split <;> exact isNumberChar_of_all (by decide)
  unfold decimalText
  rw [if_pos (show Scalar.isFinite x = true from rfl)]
  dsimp only
  split
  · exact isNumberChar_of_all (by decide)
  · exact fun c hc => hfixed c (dropZeros_subset _ hc)

theorem isNumberChar_beatsText (x : Rat) : ∀ c ∈ (beatsText x).toList, isNumberChar c = true := by
  have hdecimal := isNumberChar_decimalText (show 0 < 6 by decide) x
  unfold beatsText
  split
  · split
    · unfold fractionText
      dsimp only
      rw [String.toList_append, String.toList_append]
      exact List.forall_mem_append.mpr ⟨List.forall_mem_append.mpr
        ⟨isNumberChar_of_digits (digits_toString _).2, isNumberChar_of_all (by decide)⟩,
        isNumberChar_of_digits (digits_toString _).2⟩
    · exact hdecimal
  · exact hdecimal

theorem isBlank_of_isNumberChar {c : Char} (h : isNumberChar c = true) : Text.isBlank c = false := by
  rcases Bool.or_eq_true_iff.mp h with hdigit | hother
  · exact Text.isBlank_of_isDigit hdigit
  · have hmem : c = '.' ∨ c = '-' ∨ c = '/' := by simpa using of_decide_eq_true hother
    rcases hmem with rfl | rfl | rfl <;> rfl

theorem dropWhile_isBlank {cs : List Char} (h : ∀ c ∈ cs, isNumberChar c = true) :
    cs.dropWhile Text.isBlank = cs := by
  cases cs with
  | nil => rfl
  | cons c rest =>
    have hc := isBlank_of_isNumberChar (h c List.mem_cons_self)
    exact List.dropWhile_cons_of_neg (by simp [hc])

theorem lengthField_eq {head length last : String}
    (hlength : ∀ c ∈ length.toList, isNumberChar c = true) (hlast : ',' ∉ last.toList) :
    lengthField (head ++ ", " ++ length ++ ", " ++ last) = length := by
  have hafter : ∀ c ∈ last.toList.reverse ++ [' '], (c != ',') = true := by
    intro c hc
    rw [bne_iff_ne]
    rintro rfl
    rcases List.mem_append.mp hc with hc | hc
    · exact hlast (List.mem_reverse.mp hc)
    · exact absurd hc (by decide)
  have hwithin : ∀ c ∈ length.toList.reverse ++ [' '], (c != ',') = true := by
    intro c hc
    rw [bne_iff_ne]
    rintro rfl
    rcases List.mem_append.mp hc with hc | hc
    · exact absurd (hlength ',' (List.mem_reverse.mp hc)) (by decide)
    · exact absurd hc (by decide)
  have hrow : (head ++ ", " ++ length ++ ", " ++ last).toList.reverse =
      (last.toList.reverse ++ [' ']) ++ ',' :: ((length.toList.reverse ++ [' ']) ++
        ',' :: head.toList.reverse) := by
    simp
  unfold lengthField
  dsimp only
  rw [hrow, (takeWhile_append_stop _ hafter (by simp)).2, List.drop_one, List.tail_cons,
    (takeWhile_append_stop _ hwithin (by simp)).1, List.reverse_append, List.reverse_reverse,
    List.reverse_singleton, List.singleton_append, Text.trim, String.toList_ofList, Text.trimChars,
    List.dropWhile_cons_of_pos (by decide), dropWhile_isBlank hlength,
    dropWhile_isBlank fun c hc => hlength c (List.mem_reverse.mp hc), List.reverse_reverse,
    String.ofList_toList]

theorem lengthField_restText (beats : Rat) : lengthField (restText beats) = beatsText beats := by
  have hrow : restText beats = "[\\rest" ++ ", " ++ beatsText beats ++ ", " ++ "0]" := by
    simp [restText, ← String.toList_inj]
  rw [hrow]
  exact lengthField_eq (isNumberChar_beatsText beats) (by decide)

theorem lengthField_notes (numbers : List String) (beats level : Rat) :
    lengthField (Row.notes numbers beats level).text = beatsText beats := by
  have hlast : ',' ∉ (numberText level ++ "]").toList := by
    rw [String.toList_append, List.mem_append, not_or]
    refine ⟨fun hmem => ?_, by decide⟩
    exact absurd (isNumberChar_decimalText (by decide) level ',' hmem) (by decide)
  have hrow : (Row.notes numbers beats level).text =
      ("[" ++ numbersText numbers) ++ ", " ++ beatsText beats ++ ", " ++
        (numberText level ++ "]") := by
    simp [Row.text, ← String.toList_inj]
  rw [hrow]
  exact lengthField_eq (isNumberChar_beatsText beats) hlast

end Partitura.Script
