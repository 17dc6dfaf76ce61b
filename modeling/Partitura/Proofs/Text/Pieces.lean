import Mathlib.Data.List.TakeWhile
import Mathlib.Data.Nat.Digits.Defs
import Partitura.Text.Blank

/-!
# Numbers within texts

A number is written in digits alone, so a character that is no digit ends it. A text that is
put together around a separator is cut there again.
-/

namespace Partitura

theorem toString_nat_injective : Function.Injective (toString : Nat → String) := by
  intro m n h
  have hdigits := congrArg (fun s : String => Nat.ofDigitChars 10 s.toList 0) h
  simpa [Nat.toString_eq_repr, Nat.toList_repr, Nat.ofDigitChars_ten_toDigits] using hdigits

theorem isDigit_of_mem_toString {n : Nat} {c : Char} (h : c ∈ (toString n).toList) :
    c.isDigit = true := by
  rw [Nat.toString_eq_repr, Nat.toList_repr] at h
  exact Nat.isDigit_of_mem_toDigits (by decide) (by decide) h

theorem ne_of_test {p : Char → Bool} {c d : Char} (h : p c = true) (hd : p d = false) : c ≠ d := by
  rintro rfl
  rw [h] at hd
  cases hd

theorem takeWhile_append_stop {p : Char → Bool} {cs : List Char} (rest : List Char)
    (h : ∀ c ∈ cs, p c = true) (hrest : ∀ c ∈ rest.head?, p c = false) :
    (cs ++ rest).takeWhile p = cs ∧ (cs ++ rest).dropWhile p = rest := by
  rw [List.takeWhile_append_of_pos h, List.dropWhile_append_of_pos h]
  cases rest with
  | nil => simp
  | cons c rest =>
    have hc : p c = false := hrest c rfl
    simp [hc]

theorem takeWhile_eq_self {p : Char → Bool} {cs : List Char} (h : ∀ c ∈ cs, p c = true) :
    cs.takeWhile p = cs := by
  have htake := (takeWhile_append_stop [] h (by simp)).1
  rwa [List.append_nil] at htake

theorem splitFirst_append {sep : Char} {head rest : String} (h : sep ∉ head.toList) :
    Text.splitFirst sep (head ++ String.ofList [sep] ++ rest) = some (head, rest) := by
  have hkept : ∀ c ∈ head.toList, (c != sep) = true := fun c hc => by
    rw [bne_iff_ne]
    rintro rfl
    exact h hc
  have hstop : (sep != sep) = false := by simp
  simp only [Text.splitFirst, String.toList_append, String.toList_ofList, List.append_assoc,
    List.singleton_append, List.dropWhile_append_of_pos hkept, List.takeWhile_append_of_pos hkept,
    List.dropWhile_cons, List.takeWhile_cons, hstop, Bool.false_eq_true, if_false,
    List.append_nil, String.ofList_toList]

theorem splitFirst_eq_none {sep : Char} {s : String} (h : sep ∉ s.toList) :
    Text.splitFirst sep s = none := by
  have hkept : ∀ c ∈ s.toList, (c != sep) = true := fun c hc => by
    rw [bne_iff_ne]
    rintro rfl
    exact h hc
  have hnone := (takeWhile_append_stop [] hkept (by simp)).2
  rw [List.append_nil] at hnone
  simp only [Text.splitFirst, hnone]

theorem notMem_of_splitFirst {sep : Char} {text head rest : String}
    (h : Text.splitFirst sep text = some (head, rest)) : sep ∉ head.toList := by
  unfold Text.splitFirst at h
  dsimp only at h
  split at h
  · cases h
  · obtain ⟨rfl, rfl⟩ := Prod.mk.inj (Option.some.inj h)
    intro hmem
    rw [String.toList_ofList] at hmem
    simpa using List.mem_takeWhile_imp hmem

namespace Text

theorem cutWhere_of_none {p : Char → Bool} {cs : List Char} (h : ∀ c ∈ cs, p c = false) :
    cutWhere p cs = [cs] := by
  induction cs with
  | nil => rfl
  | cons c rest ih =>
    obtain ⟨hc, hrest⟩ := List.forall_mem_cons.mp h
    simp [cutWhere, hc, ih hrest]

theorem cutWhere_append {p : Char → Bool} {sep : Char} {cs : List Char} (rest : List Char)
    (h : ∀ c ∈ cs, p c = false) (hsep : p sep = true) :
    cutWhere p (cs ++ sep :: rest) = cs :: cutWhere p rest := by
  induction cs with
  | nil => simp [cutWhere, hsep]
  | cons c cs ih =>
    obtain ⟨hc, hcs⟩ := List.forall_mem_cons.mp h
    simp [cutWhere, hc, ih hcs]

theorem cutAt_of_notMem {sep : Char} {s : String} (h : sep ∉ s.toList) : cutAt sep s = [s] := by
  rw [cutAt, cutWhere_of_none fun c hc => by simpa using ne_of_mem_of_not_mem hc h]
  simp

theorem cutAt_append {sep : Char} {head : String} (rest : String) (h : sep ∉ head.toList) :
    cutAt sep (head ++ String.ofList [sep] ++ rest) = head :: cutAt sep rest := by
  have hhead : ∀ c ∈ head.toList, (c == sep) = false := fun c hc => by
    simpa using ne_of_mem_of_not_mem hc h
  simp [cutAt, cutWhere_append _ hhead]

theorem trimChars_of_visible {cs : List Char} (h : ∀ c ∈ cs, isBlank c = false) :
    trimChars cs = cs := by
  have hkept {ds : List Char} (hds : ∀ d ∈ ds, isBlank d = false) : ds.dropWhile isBlank = ds := by
    cases ds with
    | nil => rfl
    | cons d rest => exact List.dropWhile_cons_of_neg (by simp [hds d List.mem_cons_self])
  rw [trimChars, hkept h, hkept fun c hc => h c (List.mem_reverse.mp hc), List.reverse_reverse]

theorem trim_of_visible {s : String} (h : ∀ c ∈ s.toList, isBlank c = false) : trim s = s := by
  rw [trim, trimChars_of_visible h, String.ofList_toList]

end Text

end Partitura
