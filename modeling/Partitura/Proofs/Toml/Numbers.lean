import Mathlib
import Partitura.Proofs.Number.Digits
import Partitura.Proofs.Number.Shortest
import Partitura.Toml.Grammar

/-!
# Numbers of TOML read back

However the digits of a decimal are laid out, with a point or with an exponent, the reader comes
to the same number. A number is no date and no time, since those have a sign or a colon after
their first digits.
-/

namespace Partitura

open Number

namespace Toml

/-! ## Digits -/

def Plain (cs : List Char) : Prop := Digits cs ∧ (cs.head? = some '0' → cs = ['0'])

theorem head_toString {n : ℕ} (h : n ≠ 0) : (toString n).toList.head? ≠ some '0' := by
  rw [Nat.toString_eq_repr, Nat.toList_repr]
  induction n using Nat.strongRecOn with
  | _ n ih =>
    rw [Nat.toDigits_eq_if (by decide)]
    split
    · next hsmall =>
      have hdigit : ∀ d < 10, d ≠ 0 → [Nat.digitChar d].head? ≠ some '0' := by decide
      exact hdigit n hsmall h
    · next hlarge =>
      rw [List.head?_append_of_ne_nil _ Nat.toDigits_ne_nil]
      exact ih (n / 10) (by omega) (by omega)

theorem groupedDigits?_of_digits {cs : List Char} (h : Digits cs) :
    groupedDigits? Char.isDigit cs = some cs := by
  obtain ⟨hne, hdigits⟩ := h
  induction cs with
  | nil => exact absurd rfl hne
  | cons c rest ih =>
    have hc := hdigits c List.mem_cons_self
    cases rest with
    | nil => simp [groupedDigits?, hc]
    | cons d rest =>
      have hd : d ≠ '_' := by
        rintro rfl
        exact absurd (hdigits '_' (by simp)) (by decide)
      have hrest := ih (by simp) fun e he => hdigits e (List.mem_cons_of_mem c he)
      simp [groupedDigits?, hc, hd, hrest]

theorem wholeDigits?_of_plain {cs : List Char} (h : Plain cs) : wholeDigits? cs = some cs := by
  obtain ⟨hdigits, hzero⟩ := h
  simp only [wholeDigits?, groupedDigits?_of_digits hdigits, Option.bind_eq_bind, Option.bind_some]
  split
  · simp at hzero
  · rfl

theorem isGroupChar_of_digits {cs : List Char} (h : Digits cs) : ∀ c ∈ cs, isGroupChar c = true :=
  fun c hc => by simp [isGroupChar, h.2 c hc]

/-! ## Decimals -/

structure Exponent (tail : List Char) (n : ℤ) : Prop where
  read : exponent? tail = some n
  stop : ∀ c ∈ tail.head?, isGroupChar c = false ∧ c ≠ '.'

theorem Exponent.nil : Exponent [] 0 := ⟨rfl, by simp⟩

theorem decimal?_point {whole fraction tail : List Char} {n : ℤ} (hw : Plain whole)
    (hf : Digits fraction) (ht : Exponent tail n) :
    decimal? (whole ++ '.' :: (fraction ++ tail)) =
      some (valueOfDigits 0 (whole ++ fraction), n - fraction.length) := by
  obtain ⟨htake, hdrop⟩ := takeWhile_append_stop ('.' :: (fraction ++ tail))
    (isGroupChar_of_digits hw.1) (by simp [isGroupChar])
  obtain ⟨htake', hdrop'⟩ := takeWhile_append_stop tail (isGroupChar_of_digits hf)
    fun c hc => (ht.stop c hc).1
  simp only [decimal?, htake, hdrop, htake', hdrop', wholeDigits?_of_plain hw,
    groupedDigits?_of_digits hf, ht.read, Option.bind_eq_bind, Option.bind_some]

theorem decimal?_whole {whole tail : List Char} {n : ℤ} (hw : Plain whole) (ht : Exponent tail n)
    (hne : tail ≠ []) : decimal? (whole ++ tail) = some (valueOfDigits 0 whole, n) := by
  obtain ⟨htake, hdrop⟩ := takeWhile_append_stop tail (isGroupChar_of_digits hw.1)
    fun c hc => (ht.stop c hc).1
  simp only [decimal?, htake, hdrop, wholeDigits?_of_plain hw, Option.bind_eq_bind,
    Option.bind_some]
  split
  · exact absurd rfl hne
  · exact absurd rfl (ht.stop '.' rfl).2
  · rw [ht.read]
    rfl

theorem exponent_placed (n : ℤ) (signed : Bool) :
    Exponent ('e' :: ((if n < 0 then "-" else if signed then "+" else "").toList
      ++ (toString n.natAbs).toList)) n := by
  have hdigits := digits_toString n.natAbs
  refine ⟨?_, by simp [isGroupChar]⟩
  have hsplit : splitSign ((if n < 0 then "-" else if signed then "+" else "").toList
      ++ (toString n.natAbs).toList) = (decide (n < 0), (toString n.natAbs).toList) := by
    by_cases hneg : n < 0
    · rw [if_pos hneg, decide_eq_true hneg]
      rfl
    · rw [if_neg hneg, decide_eq_false hneg]
      cases signed
      · exact splitSign_of_digits hdigits
      · rfl
  simp only [exponent?, hsplit, groupedDigits?_of_digits hdigits, valueOfDigits_toString,
    Option.bind_eq_bind, Option.bind_some, true_or, if_true, decide_eq_true_eq, Option.some.injEq]
  split <;> omega

def ReadsAs (cs : List Char) (v : ℚ) : Prop :=
  ∃ digits exponent, decimal? cs = some (digits, exponent) ∧ (digits : ℚ) * 10 ^ exponent = v

theorem plain_toString {n : ℕ} (h : n ≠ 0) (tail : List Char) (ht : ∀ c ∈ tail, c.isDigit = true) :
    Plain ((toString n).toList ++ tail) := by
  have hdigits := digits_toString n
  refine ⟨hdigits.append ht, fun hzero => ?_⟩
  rw [List.head?_append_of_ne_nil _ hdigits.1] at hzero
  exact absurd hzero (head_toString h)

theorem plain_zero : Plain ['0'] := ⟨⟨by simp, by simp⟩, fun _ => rfl⟩

theorem readsAs_point {whole fraction tail : List Char} {n : ℤ} (hw : Plain whole)
    (hf : Digits fraction) (ht : Exponent tail n) :
    ReadsAs (whole ++ '.' :: (fraction ++ tail))
      (valueOfDigits 0 (whole ++ fraction) * 10 ^ (n - fraction.length)) :=
  ⟨_, _, decimal?_point hw hf ht, rfl⟩

theorem readsAs_whole {whole tail : List Char} {n : ℤ} (hw : Plain whole) (ht : Exponent tail n)
    (hne : tail ≠ []) : ReadsAs (whole ++ tail) (valueOfDigits 0 whole * 10 ^ n) :=
  ⟨_, _, decimal?_whole hw ht hne, rfl⟩

theorem readsAs_placePoint {n : ℕ} (h : n ≠ 0) (point : ℤ) :
    ReadsAs (placePoint (toString n) point true).toList
      (n * 10 ^ (point - (toString n).length)) := by
  have hdigits := digits_toString n
  have hvalue := valueOfDigits_toString n
  have hlength : (toString n).length = (toString n).toList.length := rfl
  rw [hlength]
  unfold placePoint
  dsimp only
  split
  · next hbefore =>
    have hfraction : Digits ((zeros (-point).toNat).toList ++ (toString n).toList) := by
      refine ⟨by simp, fun c hc => ?_⟩
      exact (List.mem_append.mp hc).elim isDigit_of_mem_zeros (hdigits.2 c)
    convert readsAs_point plain_zero hfraction .nil using 1
    · simp
    · have hzero : valueOfDigits 0 ['0'] = 0 := rfl
      rw [valueOfDigits_append, valueOfDigits_append, hzero, valueOfDigits_zeros, Nat.mul_zero,
        hvalue]
      congr 2
      simp only [List.length_append, zeros, String.toList_ofList, List.length_replicate]
      omega
  · split
    · next hbefore hafter =>
      have hplain := plain_toString h (zeros (point.toNat - (toString n).length)).toList
        fun c => isDigit_of_mem_zeros
      convert readsAs_point hplain plain_zero.1 .nil using 1
      · simp
      · obtain ⟨k, hk⟩ := Int.exists_add_of_le hafter
        have hk' : point.toNat - (toString n).length = k := by omega
        have hexponent : point - (toString n).toList.length = k := by omega
        rw [valueOfDigits_append, valueOfDigits_append, hvalue, valueOfDigits_zeros, hk', hexponent]
        simp [valueOfDigits]
        ring
    · next hbefore hafter =>
      have hsplit := List.take_append_drop point.toNat (toString n).toList
      have htake : (toString n).toList.take point.toNat ≠ [] := by
        intro h0
        have := congrArg List.length h0
        rw [List.length_take, List.length_nil] at this
        omega
      have hwhole : Plain ((toString n).toList.take point.toNat) := by
        refine ⟨⟨htake, fun c hc => hdigits.2 c (List.mem_of_mem_take hc)⟩, fun hzero => ?_⟩
        have hhead := head_toString h
        rw [← hsplit, List.head?_append_of_ne_nil _ htake] at hhead
        exact absurd hzero hhead
      have hfraction : Digits ((toString n).toList.drop point.toNat) := by
        refine ⟨fun h0 => ?_, fun c hc => hdigits.2 c (List.mem_of_mem_drop hc)⟩
        have := congrArg List.length h0
        rw [List.length_drop, List.length_nil] at this
        omega
      convert readsAs_point hwhole hfraction .nil using 1
      · simp
      · rw [hsplit, hvalue, List.length_drop]
        congr 2
        omega

theorem readsAs_placeExponent {n : ℕ} (h : n ≠ 0) (exponent : ℤ) (signed : Bool) :
    ReadsAs (placeExponent (toString n) exponent signed).toList
      (n * 10 ^ (exponent - ((toString n).length - 1))) := by
  have hdigits := digits_toString n
  have hvalue := valueOfDigits_toString n
  have hhead := head_toString h
  have hlength : (toString n).length = (toString n).toList.length := rfl
  have hexponent := exponent_placed exponent signed
  rw [hlength]
  unfold placeExponent
  dsimp only
  cases hcs : (toString n).toList with
  | nil => exact absurd hcs hdigits.1
  | cons c rest =>
    rw [hcs] at hvalue hdigits hhead
    have hplain : Plain [c] :=
      ⟨⟨by simp, fun d hd => hdigits.2 d (by simp_all)⟩, fun h => by simp_all⟩
    cases rest with
    | nil =>
      convert readsAs_whole hplain hexponent (by simp) using 1
      · simp
      · simp [hvalue]
    | cons d rest =>
      have hfraction : Digits (d :: rest) :=
        ⟨by simp, fun e he => hdigits.2 e (List.mem_cons_of_mem c he)⟩
      convert readsAs_point hplain hfraction hexponent using 1
      · simp
      · rw [List.singleton_append, hvalue]
        simp

theorem readsAs_write (layout : Layout) (hl : layout.wholeFraction = true) (d : Decimal) :
    ReadsAs (layout.write d).toList d.value := by
  unfold Layout.write
  split
  · next hzero =>
    exact ⟨0, -1, rfl, by simp [Decimal.value, hzero]⟩
  · next hdigits =>
    dsimp only
    split
    · rw [hl]
      convert readsAs_placePoint hdigits _ using 1
      rw [add_sub_cancel_left]
      rfl
    · convert readsAs_placeExponent hdigits _ _ using 1
      have hexponent : ((toString d.digits).length : ℤ) + d.exponent - 1
          - ((toString d.digits).length - 1) = d.exponent := by ring
      rw [hexponent]
      rfl

/-! ## Words -/

def isNumeric (c : Char) : Bool :=
  c.isDigit || ['.', 'e', '+', '-', 'i', 'n', 'f', 'N', 'a'].contains c

def Numeric (s : String) : Prop := ∀ c ∈ s.toList, isNumeric c = true

theorem Numeric.append {s t : String} (hs : Numeric s) (ht : Numeric t) : Numeric (s ++ t) := by
  intro c hc
  rw [String.toList_append] at hc
  exact (List.mem_append.mp hc).elim (hs c) (ht c)

theorem numeric_ofList {cs ds : List Char} (h : ∀ c ∈ ds, c.isDigit = true) (hsub : cs ⊆ ds) :
    Numeric (String.ofList cs) := by
  intro c hc
  rw [String.toList_ofList] at hc
  simp [isNumeric, h c (hsub hc)]

theorem numeric_toString (n : ℕ) : Numeric (toString n) := by
  have h := numeric_ofList (digits_toString n).2 (List.Subset.refl _)
  rwa [String.ofList_toList] at h

theorem numeric_zeros (n : ℕ) : Numeric (zeros n) :=
  numeric_ofList (fun c hc => by rw [List.eq_of_mem_replicate hc]; rfl) (List.Subset.refl _)

theorem numeric_sign (negative signed : Bool) :
    Numeric (if negative then "-" else if signed then "+" else "") := by
  cases negative <;> cases signed <;> simp [Numeric, isNumeric]

theorem numeric_point : Numeric "." := by simp [Numeric, isNumeric]

theorem numeric_placePoint (n : ℕ) (point : ℤ) (wholeFraction : Bool) :
    Numeric (placePoint (toString n) point wholeFraction) := by
  have hzero : Numeric "0." := by simp [Numeric, isNumeric]
  have hfraction : Numeric (if wholeFraction then ".0" else "") := by
    cases wholeFraction <;> simp [Numeric, isNumeric]
  have hdigits := (digits_toString n).2
  unfold placePoint
  dsimp only
  split
  · exact (hzero.append (numeric_zeros _)).append (numeric_toString n)
  · split
    · exact ((numeric_toString n).append (numeric_zeros _)).append hfraction
    · exact ((numeric_ofList hdigits (List.take_subset _ _)).append numeric_point).append
        (numeric_ofList hdigits (List.drop_subset _ _))

theorem numeric_placeExponent (n : ℕ) (exponent : ℤ) (signed : Bool) :
    Numeric (placeExponent (toString n) exponent signed) := by
  have he : Numeric "e" := by simp [Numeric, isNumeric]
  have hdigits := (digits_toString n).2
  have hsign : Numeric (if exponent < 0 then "-" else if signed then "+" else "") := by
    simpa using numeric_sign (decide (exponent < 0)) signed
  have hfraction : Numeric (if (toString n).toList.length ≤ 1 then ""
      else "." ++ String.ofList ((toString n).toList.drop 1)) := by
    split
    · simp [Numeric]
    · exact numeric_point.append (numeric_ofList hdigits (List.drop_subset _ _))
  exact ((((numeric_ofList hdigits (List.take_subset _ _)).append hfraction).append he).append
    hsign).append (numeric_toString _)

theorem numeric_write (layout : Layout) (d : Decimal) : Numeric (layout.write d) := by
  unfold Layout.write
  split
  · cases layout.wholeFraction <;> simp [Numeric, isNumeric]
  · dsimp only
    split
    · exact numeric_placePoint _ _ _
    · exact numeric_placeExponent _ _ _

theorem after?_some {c : Char} {cs rest : List Char} (h : after? c cs = some rest) :
    cs = c :: rest := by
  unfold after? at h
  split at h
  · split at h
    · next hc =>
      rw [hc, Option.some.inj h]
    · cases h
  · cases h

theorem digits?_some {width lo hi n : ℕ} {cs rest : List Char}
    (h : digits? width lo hi cs = some (n, rest)) : ∃ ds, Digits ds ∧ cs = ds ++ rest := by
  obtain ⟨m, hm, h⟩ := Option.bind_eq_some_iff.mp h
  split at h
  · cases h
    refine ⟨cs.take width, ?_, (List.take_append_drop ..).symm⟩
    unfold natural? at hm
    split at hm
    · cases hm
    · next hdigits => simpa [Digits] using hdigits
  · cases h

theorem date?_some {cs rest : List Char} {d : Date} (h : date? cs = some (d, rest)) :
    ∃ ds after, Digits ds ∧ cs = ds ++ '-' :: after := by
  obtain ⟨⟨year, first⟩, hyear, h⟩ := Option.bind_eq_some_iff.mp h
  obtain ⟨second, hsign, h⟩ := Option.bind_eq_some_iff.mp h
  obtain ⟨ds, hds, rfl⟩ := digits?_some hyear
  obtain rfl := after?_some hsign
  exact ⟨ds, second, hds, rfl⟩

theorem timeOfDay?_some {cs rest : List Char} {t : TimeOfDay}
    (h : timeOfDay? cs = some (t, rest)) : ∃ ds after, Digits ds ∧ cs = ds ++ ':' :: after := by
  obtain ⟨⟨hour, first⟩, hhour, h⟩ := Option.bind_eq_some_iff.mp h
  obtain ⟨second, hcolon, h⟩ := Option.bind_eq_some_iff.mp h
  obtain ⟨ds, hds, rfl⟩ := digits?_some hhour
  obtain rfl := after?_some hcolon
  exact ⟨ds, second, hds, rfl⟩

/-- A text in which neither a sign nor a colon comes right after the first digits is no date and
no time. -/
theorem moment?_eq_none {cs : List Char}
    (h : ∀ ds after, Digits ds → cs ≠ ds ++ '-' :: after ∧ cs ≠ ds ++ ':' :: after) :
    moment? cs = none := by
  have hdate : date? cs = none := by
    refine Option.eq_none_iff_forall_ne_some.mpr fun _ hd => ?_
    obtain ⟨ds, after, hds, hcs⟩ := date?_some hd
    exact (h ds after hds).1 hcs
  have htime : timeOfDay? cs = none := by
    refine Option.eq_none_iff_forall_ne_some.mpr fun _ ht => ?_
    obtain ⟨ds, after, hds, hcs⟩ := timeOfDay?_some ht
    exact (h ds after hds).2 hcs
  simp [moment?, hdate, htime]

theorem groupedDigits?_some {p : Char → Bool} {cs ds : List Char}
    (h : groupedDigits? p cs = some ds) : ∃ c rest, cs = c :: rest ∧ p c = true := by
  unfold groupedDigits? at h
  split at h
  · cases h
  · next c =>
    split at h
    · exact ⟨c, [], rfl, ‹_›⟩
    · cases h
  · next c rest =>
    split at h
    · exact ⟨c, _, rfl, ‹_›⟩
    · cases h
  · next c rest _ _ =>
    split at h
    · exact ⟨c, rest, rfl, ‹_›⟩
    · cases h

theorem decimal?_some {cs : List Char} {digits : ℕ} {exponent : ℤ}
    (h : decimal? cs = some (digits, exponent)) :
    (∃ c rest, cs = c :: rest ∧ c.isDigit = true) ∧
      ∀ ds after, Digits ds → cs ≠ ds ++ '-' :: after ∧ cs ≠ ds ++ ':' :: after := by
  obtain ⟨whole, hwhole, hrest⟩ := Option.bind_eq_some_iff.mp h
  constructor
  · obtain ⟨_, hgrouped, -⟩ := Option.bind_eq_some_iff.mp hwhole
    obtain ⟨c, rest, htake, hc⟩ := groupedDigits?_some hgrouped
    refine ⟨c, rest ++ cs.dropWhile isGroupChar, ?_, hc⟩
    rw [← List.cons_append, ← htake, List.takeWhile_append_dropWhile]
  · have hstop (c : Char) (hc : isGroupChar c = false) (hpoint : c ≠ '.')
        (he : c ≠ 'e') (hE : c ≠ 'E') (ds after : List Char) (hds : Digits ds) :
        cs ≠ ds ++ c :: after := by
      rintro rfl
      obtain ⟨-, hdrop⟩ := takeWhile_append_stop (c :: after) (isGroupChar_of_digits hds)
        (by simpa using hc)
      rw [hdrop] at hrest
      simp [exponent?, hpoint, he, hE] at hrest
    exact fun ds after hds => ⟨hstop '-' rfl (by decide) (by decide) (by decide) ds after hds,
      hstop ':' rfl (by decide) (by decide) (by decide) ds after hds⟩

section Words

variable {α : Type} [Scalar α] {cs : List Char} {digits : ℕ} {exponent : ℤ}

theorem float?_of_decimal (negative : Bool) (h : decimal? cs = some (digits, exponent)) :
    (float? ((if negative then "-" else "").toList ++ cs) : Option α) =
      let x : α := Scalar.ofDecimal digits exponent
      if negative then some (-x) else if Scalar.isFinite x then some x else none := by
  obtain ⟨⟨c, rest, rfl, hc⟩, -⟩ := decimal?_some h
  have hletter (d : Char) (hd : d.isDigit = false) : c ≠ d := by
    rintro rfl
    rw [hc] at hd
    cases hd
  have hsplit : splitSign ((if negative then "-" else "").toList ++ c :: rest) =
      (negative, c :: rest) := by
    cases negative
    · simp [splitSign, hletter '+' rfl, hletter '-' rfl]
    · rfl
  simp [float?, hsplit, hletter 'i' rfl, hletter 'n' rfl, h]

theorem word?_of_float {x : α} (hword : ∃ c rest, cs = c :: rest ∧ c ≠ 't' ∧ c ≠ 'f')
    (hmoment : moment? cs = none) (h : float? cs = some x) : word? cs = some (.float x) := by
  obtain ⟨c, rest, rfl, ht, hf⟩ := hword
  simp [word?, ht, hf, hmoment, h]

end Words

theorem float?_settingText {x : Float} (h : x.isNaN = false) :
    float? (Layout.setting.text x).toList = some x := by
  unfold Layout.text
  dsimp only
  rw [if_neg (Bool.eq_false_iff.mp h)]
  cases hinf : x.isInf with
  | true =>
    have hx := eq_infinite hinf
    have hread : (float? ((if isNegative x then "-" else "") ++ "inf").toList : Option Float) =
        some (if isNegative x then -1.0 / 0.0 else 1.0 / 0.0) := by
      cases isNegative x <;> simp [float?, splitSign, Scalar.infinity?]
    rw [if_pos rfl, hread, ← hx]
  | false =>
    have hfinite := isFinite_of_not_isInf h hinf
    obtain ⟨digits, exponent, hread, hvalue⟩ :=
      readsAs_write .setting rfl ((Magnitude.ofBits x.toBits).shortest .up)
    have hx := nearestFloat_of_value hfinite hvalue
    rw [if_neg Bool.false_ne_true, String.toList_append]
    refine (float?_of_decimal _ hread).trans ?_
    show (if isNegative x then some (-nearestFloat digits exponent)
      else if (nearestFloat digits exponent).isFinite then some (nearestFloat digits exponent)
      else none) = some x
    cases hneg : isNegative x with
    | true =>
      rw [hneg, if_pos rfl] at hx
      rw [if_pos rfl, hx]
    | false =>
      rw [hneg, if_neg Bool.false_ne_true] at hx
      rw [if_neg Bool.false_ne_true, hx, if_pos hfinite]

theorem moment?_of_decimal {cs : List Char} {digits : ℕ} {exponent : ℤ} (negative : Bool)
    (h : decimal? cs = some (digits, exponent)) :
    moment? ((if negative then "-" else "").toList ++ cs) = none := by
  obtain ⟨-, hstop⟩ := decimal?_some h
  cases negative with
  | false => exact moment?_eq_none hstop
  | true =>
    refine moment?_eq_none fun ds after hds => ?_
    cases ds with
    | nil => exact absurd rfl hds.1
    | cons d ds =>
      have hd : '-' ≠ d := by
        rintro rfl
        exact absurd (hds.2 '-' List.mem_cons_self) (by decide)
      simp [hd]

theorem word?_settingText {x : Float} (h : x.isNaN = false) :
    word? (Layout.setting.text x).toList = some (.float x) := by
  have hfloat := float?_settingText h
  unfold Layout.text at hfloat ⊢
  dsimp only at hfloat ⊢
  rw [if_neg (Bool.eq_false_iff.mp h)] at hfloat ⊢
  split at hfloat
  · next hinf =>
    rw [if_pos hinf]
    refine word?_of_float ?_ ?_ hfloat
    · cases isNegative x <;> simp
    · cases isNegative x <;> decide
  · next hinf =>
    rw [if_neg hinf]
    obtain ⟨digits, exponent, hread, -⟩ :=
      readsAs_write .setting rfl ((Magnitude.ofBits x.toBits).shortest .up)
    obtain ⟨⟨c, rest, hcs, hc⟩, -⟩ := decimal?_some hread
    rw [String.toList_append] at hfloat ⊢
    refine word?_of_float ?_ (moment?_of_decimal _ hread) hfloat
    cases isNegative x with
    | true => exact ⟨'-', _, rfl, by decide, by decide⟩
    | false =>
      refine ⟨c, rest, hcs, ?_, ?_⟩ <;>
      · rintro rfl
        exact absurd hc (by decide)

theorem word?_settingText_of_isNaN {x : Float} (h : x.isNaN = true) :
    (word? (Layout.setting.text x).toList : Option (Toml Float)) = none := by
  rw [Layout.text, if_pos h]
  rfl

theorem plain_digits (n : ℕ) : Plain (toString n).toList := by
  by_cases h : n = 0
  · subst h
    exact plain_zero
  · have hplain := plain_toString h [] (by simp)
    rwa [List.append_nil] at hplain

theorem decimal?_of_digits {cs : List Char} (h : Digits cs) : decimal? cs = none := by
  obtain ⟨-, hdrop⟩ := takeWhile_append_stop ([]) (isGroupChar_of_digits h) (by simp)
  rw [List.append_nil] at hdrop
  simp [decimal?, hdrop]

theorem integer?_of_digits {cs : List Char} (h : Plain cs) :
    integer? cs = bounded? (valueOfDigits 0 cs : ℕ) := by
  have hletter (d : Char) (hd : d.isDigit = false) : d ∉ cs := fun hmem => by
    rw [h.1.2 d hmem] at hd
    cases hd
  unfold integer?
  split
  · exact absurd (by simp) (hletter 'x' rfl)
  · exact absurd (by simp) (hletter 'o' rfl)
  · exact absurd (by simp) (hletter 'b' rfl)
  · simp [splitSign_of_digits h.1, wholeDigits?_of_plain h]

theorem word?_toString {α : Type} [Scalar α] (n : ℕ) :
    (word? (toString n).toList : Option (Toml α)) =
      if n < 2 ^ 63 then some (.integer n) else none := by
  have hplain := plain_digits n
  have hvalue := valueOfDigits_toString n
  generalize (toString n).toList = cs at hplain hvalue
  have hdigits := hplain.1
  have hletter (d : Char) (hd : d.isDigit = false) : d ∉ cs := fun hmem => by
    rw [hdigits.2 d hmem] at hd
    cases hd
  have hname (name : List Char) (hname : ∃ d ∈ name, d.isDigit = false) : cs ≠ name := by
    rintro rfl
    obtain ⟨d, hd, hdigit⟩ := hname
    exact hletter d hdigit hd
  have hmoment : moment? cs = none := by
    refine moment?_eq_none fun ds after _ => ⟨?_, ?_⟩
    · rintro rfl
      exact hletter '-' rfl (by simp)
    · rintro rfl
      exact hletter ':' rfl (by simp)
  have hfloat : (float? cs : Option α) = none := by
    simp only [float?, splitSign_of_digits hdigits]
    rw [if_neg (hname _ ⟨'i', by simp, rfl⟩), if_neg (hname _ ⟨'n', by simp, rfl⟩),
      decimal?_of_digits hdigits]
    rfl
  unfold word?
  rw [if_neg (hname _ ⟨'t', by simp, rfl⟩), if_neg (hname _ ⟨'f', by simp, rfl⟩), hmoment, hfloat,
    integer?_of_digits hplain, hvalue, bounded?, Json.isInt64]
  simp only [decide_eq_true_eq]
  by_cases hn : n < 2 ^ 63
  · rw [if_pos hn, if_pos (by omega)]
    rfl
  · rw [if_neg hn, if_neg (by omega)]
    rfl

theorem numeric_settingText (x : Float) : Numeric (Layout.setting.text x) := by
  have hsign : Numeric (if isNegative x then "-" else "") := by
    cases isNegative x <;> simp [Numeric, isNumeric]
  unfold Layout.text
  dsimp only
  split
  · simp [Numeric, isNumeric]
  · split
    · exact hsign.append (by simp [Numeric, isNumeric])
    · exact hsign.append (numeric_write _ _)

/-! ## Values -/

theorem value?_of_word {α : Type} [Scalar α] {c : Char} {cs : List Char}
    (h : ∀ d ∈ c :: cs, isNumeric d = true) (depth : ℕ) (rest : List Char) :
    (value? depth (c :: cs ++ '\n' :: rest) : Option (Written α × List Char)) =
      (word? (c :: cs)).map fun v => (.plain v, '\n' :: rest) := by
  have hother (d : Char) (hd : isNumeric d = false) (e : Char) (he : e ∈ c :: cs) : e ≠ d :=
    ne_of_test (h e he) hd
  have hends : ∀ d ∈ c :: cs, (!endsWord d) = true := fun d hd => by
    simp [endsWord, hother ' ' rfl d hd, hother '\t' rfl d hd, hother '\n' rfl d hd,
      hother '\r' rfl d hd, hother '#' rfl d hd, hother ',' rfl d hd, hother ']' rfl d hd,
      hother '\x7d' rfl d hd]
  obtain ⟨htake, hdrop⟩ := takeWhile_append_stop ('\n' :: rest) hends (by simp [endsWord])
  have hsimple : (simpleValue? (c :: cs ++ '\n' :: rest) : Option (Toml α × List Char)) =
      (word? (c :: cs)).map fun v => (v, '\n' :: rest) := by
    unfold simpleValue? takeWord dropWord
    rw [htake, hdrop]
    cases (word? (c :: cs) : Option (Toml α)) with
    | none => rfl
    | some v =>
      cases v with
      | moment m => cases m <;> rfl
      | _ => rfl
  have hc := List.mem_cons_self (a := c) (l := cs)
  rw [List.cons_append] at hsimple ⊢
  cases depth <;>
    simp only [value?, hother '"' rfl c hc, hother '\'' rfl c hc, hother '[' rfl c hc,
      hother '\x7b' rfl c hc, or_self, if_false, hsimple] <;>
    cases (word? (c :: cs) : Option (Toml α)) <;> rfl

end Toml

end Partitura
