import Partitura.Number.Numeral
import Partitura.Number.Rational
import Partitura.Proofs.Text.Pieces

/-!
# Digits and their values

The digits of a number are read as that number, with zeros before them or behind them as they
count. A reader of numbers takes digits with a point among them for a decimal.
-/

namespace Partitura.Number

def Digits (cs : List Char) : Prop := cs ≠ [] ∧ ∀ c ∈ cs, c.isDigit = true

theorem Digits.append {cs ds : List Char} (hc : Digits cs) (hd : ∀ d ∈ ds, d.isDigit = true) :
    Digits (cs ++ ds) :=
  ⟨by simp [hc.1], fun c h => (List.mem_append.mp h).elim (hc.2 c) (hd c)⟩

theorem isDigit_of_mem_zeros {n : ℕ} {c : Char} (h : c ∈ (zeros n).toList) : c.isDigit = true := by
  rw [zeros, String.toList_ofList] at h
  rw [List.eq_of_mem_replicate h]
  rfl

theorem digits_toString (n : ℕ) : Digits (toString n).toList := by
  refine ⟨?_, fun c h => isDigit_of_mem_toString h⟩
  rw [Nat.toString_eq_repr, Nat.toList_repr]
  exact Nat.toDigits_ne_nil

theorem valueOfDigits_eq (start : ℕ) (cs : List Char) :
    valueOfDigits start cs = Nat.ofDigitChars 10 cs start := by
  simp only [valueOfDigits, Nat.ofDigitChars, Nat.mul_comm]

theorem valueOfDigits_toString (n : ℕ) : valueOfDigits 0 (toString n).toList = n := by
  rw [valueOfDigits_eq, Nat.toString_eq_repr, Nat.toList_repr, Nat.ofDigitChars_ten_toDigits]

theorem valueOfDigits_zeros (start n : ℕ) :
    valueOfDigits start (zeros n).toList = 10 ^ n * start := by
  rw [valueOfDigits_eq, zeros, String.toList_ofList, Nat.ofDigitChars_replicate_zero]

theorem valueOfDigits_append (start : ℕ) (cs ds : List Char) :
    valueOfDigits start (cs ++ ds) = valueOfDigits (valueOfDigits start cs) ds :=
  List.foldl_append ..

/-! ## Reading -/

theorem splitSign_of_isDigit {c : Char} (h : c.isDigit = true) (rest : List Char) :
    splitSign (c :: rest) = (false, c :: rest) := by
  unfold splitSign
  split
  · next heq =>
    obtain ⟨rfl, -⟩ := List.cons.inj heq
    cases h
  · next heq =>
    obtain ⟨rfl, -⟩ := List.cons.inj heq
    cases h
  · rfl

theorem splitSign_of_digits {cs : List Char} (h : Digits cs) : splitSign cs = (false, cs) := by
  obtain ⟨c, rest, rfl⟩ := List.exists_cons_of_ne_nil h.1
  exact splitSign_of_isDigit (h.2 c List.mem_cons_self) rest

theorem toLower_of_isDigit {c : Char} (h : c.isDigit = true) : c.toLower = c := by
  delta Char.isDigit at h
  delta Char.toLower
  grind

theorem takeWhile_digits {cs : List Char} (h : ∀ c ∈ cs, c.isDigit = true) :
    cs.takeWhile Char.isDigit = cs ∧ cs.dropWhile Char.isDigit = [] := by
  have hstop := takeWhile_append_stop [] h (by simp)
  rwa [List.append_nil] at hstop

theorem natural?_of_digits {cs : List Char} (h : Digits cs) :
    natural? cs = some (valueOfDigits 0 cs) := by
  have hall : cs.all Char.isDigit = true := List.all_eq_true.mpr h.2
  simp [natural?, h.1, hall]

theorem toList_toString_int (n : ℤ) :
    (toString n).toList = (if n < 0 then ['-'] else []) ++ (toString n.natAbs).toList := by
  cases n with
  | ofNat m => rfl
  | negSucc m =>
    rw [if_pos (Int.negSucc_lt_zero m)]
    show ("-" ++ toString (m + 1)).toList = _
    rw [String.toList_append]
    rfl

theorem splitSign_toString_int (n : ℤ) :
    splitSign (toString n).toList = (decide (n < 0), (toString n.natAbs).toList) := by
  rw [toList_toString_int]
  by_cases hn : n < 0
  · rw [if_pos hn, decide_eq_true hn]
    rfl
  · rw [if_neg hn, decide_eq_false hn]
    exact splitSign_of_digits (digits_toString _)

theorem integerWithin?_toString {lo hi n : ℤ} (hlo : lo ≤ n) (hhi : n ≤ hi) :
    integerWithin? lo hi (toString n) = some n := by
  have hsign : (decide (n < 0) && decide (0 ≤ lo)) = false := by
    by_cases hn : n < 0 <;> simp [hn]
    omega
  have hvalue : (if decide (n < 0) = true then -(n.natAbs : ℤ) else n.natAbs) = n := by
    split
    · next hn =>
      have hn := of_decide_eq_true hn
      omega
    · next hn =>
      have hn := of_decide_eq_false (Bool.eq_false_of_not_eq_true hn)
      omega
  simp only [integerWithin?, splitSign_toString_int, hsign, natural?_of_digits (digits_toString _),
    valueOfDigits_toString, Option.bind_eq_bind, Option.bind_some, hvalue, Bool.false_eq_true,
    if_false, if_pos (And.intro hlo hhi)]

theorem decimal?_whole {whole : List Char} (h : Digits whole) :
    decimal? whole = some (valueOfDigits 0 whole, 0) := by
  obtain ⟨htake, hdrop⟩ := takeWhile_digits h.2
  simp [decimal?, htake, hdrop, h.1, valueOfDigits]

theorem decimal?_point {whole fraction : List Char} (hw : Digits whole)
    (hf : ∀ c ∈ fraction, c.isDigit = true) :
    decimal? (whole ++ '.' :: fraction) =
      some (valueOfDigits 0 (whole ++ fraction), -(fraction.length : Int)) := by
  obtain ⟨htake, hdrop⟩ := takeWhile_append_stop ('.' :: fraction) hw.2 (by simp)
  obtain ⟨htake', hdrop'⟩ := takeWhile_digits hf
  simp [decimal?, htake, hdrop, htake', hdrop', hw.1, valueOfDigits_append]

theorem exactDecimalValue_neg (digits places : Nat) :
    exactDecimalValue digits (-(places : Int)) = digits / 10 ^ places := by
  unfold exactDecimalValue
  split
  · rw [Int.natAbs_neg, Int.natAbs_natCast]
    exact congrArg _ (Nat.cast_pow 10 places)
  · obtain rfl : places = 0 := by omega
    simp

theorem scalar?_of_digits {s : String} {whole rest : List Char} (hs : s.toList = whole ++ rest)
    (hw : Digits whole) :
    (scalar? s : Option Rat) = (decimal? s.toList).map fun d => exactDecimalValue d.1 d.2 := by
  obtain ⟨c, later, rfl⟩ := List.exists_cons_of_ne_nil hw.1
  have hc := hw.2 c List.mem_cons_self
  have hname (letter : Char) (hletter : letter.isDigit = false) (name : List Char) :
      s.toList.map Char.toLower ≠ letter :: name := by
    rw [hs, List.cons_append, List.map_cons, toLower_of_isDigit hc]
    exact fun h => ne_of_test hc hletter (List.cons.inj h).1
  have hsign : splitSign s.toList = (false, s.toList) := by
    rw [hs]
    exact splitSign_of_isDigit hc _
  unfold scalar?
  rw [hsign]
  dsimp only
  rw [if_neg, if_neg]
  · rfl
  · exact hname 'n' rfl _
  · rintro (h | h)
    · exact hname 'i' rfl _ h
    · exact hname 'i' rfl _ h

/-! ## Numbers that are written out -/

inductive WritesOut : List Char → Rat → Prop where
  | whole {ds : List Char} : Digits ds → WritesOut ds (valueOfDigits 0 ds)
  | point {ds es : List Char} : Digits ds → Digits es →
    WritesOut (ds ++ '.' :: es) (valueOfDigits 0 (ds ++ es) / 10 ^ es.length)

theorem scalar?_of_writesOut {s : String} {x : Rat} (h : WritesOut s.toList x) :
    scalar? s = some x := by
  generalize hs : s.toList = cs at h
  cases h with
  | whole hds =>
    rw [scalar?_of_digits (hs.trans (List.append_nil _).symm) hds, hs, decimal?_whole hds]
    simp [exactDecimalValue]
  | point hds hes =>
    rw [scalar?_of_digits hs hds, hs, decimal?_point hds hes.2, Option.map_some,
      exactDecimalValue_neg]

theorem writesOut_toString (n : Nat) : WritesOut (toString n).toList n := by
  have h := WritesOut.whole (digits_toString n)
  rwa [valueOfDigits_toString] at h

section Characters

variable {cs : List Char} {x : Rat}

theorem exists_digits_of_writesOut (h : WritesOut cs x) :
    ∃ ds rest, cs = ds ++ rest ∧ Digits ds := by
  cases h with
  | whole hds => exact ⟨_, [], (List.append_nil _).symm, hds⟩
  | point hds => exact ⟨_, _, rfl, hds⟩

theorem digit_or_point_of_writesOut (h : WritesOut cs x) :
    ∀ c ∈ cs, c.isDigit = true ∨ c = '.' := by
  cases h with
  | whole hds => exact fun c hc => .inl (hds.2 c hc)
  | point hds hes =>
    intro c hc
    rcases List.mem_append.mp hc with hc | hc
    · exact .inl (hds.2 c hc)
    · rcases List.mem_cons.mp hc with hc | hc
      · exact .inr hc
      · exact .inl (hes.2 c hc)

theorem ne_nil_of_writesOut (h : WritesOut cs x) : cs ≠ [] := by
  cases h with
  | whole hds => exact hds.1
  | point hds => simp

end Characters

end Partitura.Number
