import Mathlib.Data.List.Pairwise
import Mathlib.Order.Lattice

/-!
# Stable sorting

A list is sorted stably if its entries, numbered as they stood before, come in
order, and those that count as equal in the order of their numbers. Entries that
were in order already come out as they stood, whatever is sorted around them.
-/

namespace Partitura

variable {β : Type} {le : β → β → Bool}

/-- The second list holds the first one in order, equal entries as they stood. -/
def StablySorted (le : β → β → Bool) (before after : List β) : Prop :=
  ∃ numbered : List (β × Nat), numbered.Perm before.zipIdx ∧ numbered.map Prod.fst = after ∧
    numbered.Pairwise fun a b => le a.1 b.1 = true ∧ (le b.1 a.1 = true → a.2 < b.2)

theorem StablySorted.perm {before after : List β} (h : StablySorted le before after) :
    after.Perm before := by
  obtain ⟨numbered, hperm, rfl, -⟩ := h
  have hmap := hperm.map Prod.fst
  rwa [List.zipIdx_map_fst] at hmap

theorem StablySorted.pairwise {before after : List β} (h : StablySorted le before after) :
    after.Pairwise fun a b => le a b = true := by
  obtain ⟨numbered, -, rfl, hsorted⟩ := h
  exact List.pairwise_map.mpr (hsorted.imp And.left)

/-- Orders that agree on the entries sort them alike. -/
theorem StablySorted.congr {le' : β → β → Bool} {before after : List β}
    (h : StablySorted le before after) (hle : ∀ a ∈ before, ∀ b ∈ before, le a b = le' a b) :
    StablySorted le' before after := by
  obtain ⟨numbered, hperm, hafter, hsorted⟩ := h
  have hmem {a : β × Nat} (ha : a ∈ numbered) : a.1 ∈ before :=
    List.fst_mem_of_mem_zipIdx (hperm.mem_iff.mp ha)
  refine ⟨numbered, hperm, hafter, hsorted.imp_of_mem fun {a b} ha hb hab => ?_⟩
  rwa [hle _ (hmem ha) _ (hmem hb), hle _ (hmem hb) _ (hmem ha)] at hab

theorem pairwise_zipIdx_ne (items : List β) : items.zipIdx.Pairwise fun a b => a.2 ≠ b.2 := by
  have hnodup : (items.zipIdx.map Prod.snd).Nodup := by
    rw [List.zipIdx_map_snd]
    exact List.nodup_range'
  exact List.pairwise_map.mp hnodup

theorem exists_last_greatest {γ : Type} [LinearOrder γ] (value : β → γ) (P : β → Prop) {items : List β}
    (h : ∃ x ∈ items, P x) :
    ∃ before x after, items = before ++ x :: after ∧ P x ∧
      (∀ y ∈ before, P y → value y ≤ value x) ∧ ∀ y ∈ after, P y → value y < value x := by
  induction items with
  | nil => simp at h
  | cons first rest ih =>
    by_cases hrest : ∃ x ∈ rest, P x
    · obtain ⟨before, x, after, rfl, hx, hbefore, hafter⟩ := ih hrest
      by_cases hfirst : P first ∧ value x < value first
      · refine ⟨[], first, _, rfl, hfirst.1, by simp, fun y hy hPy => ?_⟩
        rcases List.mem_append.mp hy with hy | hy
        · exact lt_of_le_of_lt (hbefore y hy hPy) hfirst.2
        · rcases List.mem_cons.mp hy with rfl | hy
          · exact hfirst.2
          · exact lt_trans (hafter y hy hPy) hfirst.2
      · refine ⟨first :: before, x, after, rfl, hx, fun y hy hPy => ?_, hafter⟩
        rcases List.mem_cons.mp hy with rfl | hy
        · exact le_of_not_gt fun hlt => hfirst ⟨hPy, hlt⟩
        · exact hbefore y hy hPy
    · obtain ⟨x, hx, hPx⟩ := h
      rcases List.mem_cons.mp hx with rfl | hx
      · exact ⟨[], x, rest, rfl, hPx, by simp, fun y hy hPy => (hrest ⟨y, hy, hPy⟩).elim⟩
      · exact (hrest ⟨x, hx, hPx⟩).elim

theorem takeWhile_eq_filter {p : β → Bool} {items : List β}
    (h : items.Pairwise fun a b => p b = true → p a = true) :
    items.takeWhile p = items.filter p ∧ items.dropWhile p = items.filter (!p ·) := by
  induction items with
  | nil => exact ⟨rfl, rfl⟩
  | cons x rest ih =>
    obtain ⟨hx, hrest⟩ := List.pairwise_cons.mp h
    cases hp : p x with
    | true => simp [hp, ih hrest]
    | false =>
      have hnone : ∀ y ∈ rest, p y = false := fun y hy =>
        Bool.eq_false_iff.mpr fun hpy => by simp [hx y hy hpy] at hp
      constructor
      · simpa [hp] using hnone
      · simpa [hp] using (List.filter_eq_self.mpr fun y hy => by simp [hnone y hy]).symm

section Order

variable (trans : ∀ a b c, le a b = true → le b c = true → le a c = true)
  (total : ∀ a b, (le a b || le b a) = true)

include trans total

theorem stablySorted_mergeSort (items : List β) : StablySorted le items (items.mergeSort le) := by
  have hperm := List.mergeSort_perm items.zipIdx (List.zipIdxLE le)
  have hne : (items.zipIdx.mergeSort (List.zipIdxLE le)).Pairwise fun a b => a.2 ≠ b.2 :=
    (hperm.pairwise_iff fun h => Ne.symm h).mpr (pairwise_zipIdx_ne items)
  have hsorted := List.pairwise_mergeSort (List.zipIdxLE_trans trans) (List.zipIdxLE_total total)
    items.zipIdx
  refine ⟨_, hperm, List.mergeSort_zipIdx, (hsorted.and hne).imp ?_⟩
  rintro a b ⟨hle, hne⟩
  unfold List.zipIdxLE at hle
  split at hle
  · rename_i hab
    split at hle
    · exact ⟨hab, fun _ => Nat.lt_of_le_of_ne (of_decide_eq_true hle) hne⟩
    · rename_i hba
      exact ⟨hab, fun h => absurd h hba⟩
  · cases hle

/-- What is in order already is not moved against itself. -/
theorem filter_mergeSort {items : List β} {p : β → Bool}
    (h : (items.filter p).Pairwise fun a b => le a b = true) :
    (items.mergeSort le).filter p = items.filter p := by
  have hsub : (items.filter p).Sublist ((items.mergeSort le).filter p) := by
    have hfilter := (List.sublist_mergeSort trans total h List.filter_sublist).filter p
    simpa only [List.filter_filter, Bool.and_self] using hfilter
  have hlength := ((List.mergeSort_perm items le).filter p).length_eq
  exact (hsub.eq_of_length hlength.symm).symm

theorem filterMap_mergeSort {γ : Type} {items : List β} {f : β → Option γ}
    (h : items.Pairwise fun a b => (f a).isSome = true → (f b).isSome = true → le a b = true) :
    (items.mergeSort le).filterMap f = items.filterMap f := by
  have hread (list : List β) : (list.filter fun x => (f x).isSome).filterMap f = list.filterMap f := by
    rw [List.filterMap_filter]
    refine congrArg (List.filterMap · list) (funext fun x => ?_)
    cases f x <;> rfl
  rw [← hread, filter_mergeSort trans total (List.pairwise_filter.mpr h), hread]

theorem getLast?_filter_mergeSort {before after : List β} {x : β} {p : β → Bool} (hx : p x = true)
    (hbefore : ∀ y ∈ before, p y = true → le y x = true)
    (hafter : ∀ y ∈ after, p y = true → le x y = false) :
    (((before ++ x :: after).mergeSort le).filter p).getLast? = some x := by
  let greatest (y : β) : Bool := p y && le x y
  have hself (y : β) : le y y = true := by simpa using total y y
  have hall : ∀ y ∈ before ++ x :: after, p y = true → le y x = true := by
    intro y hy hpy
    rcases List.mem_append.mp hy with hy | hy
    · exact hbefore y hy hpy
    · rcases List.mem_cons.mp hy with rfl | hy
      · exact hself y
      · simpa [hafter y hy hpy] using total x y
  -- the greatest entries count as equal, so they stay as they stood
  have hkept : ((before ++ x :: after).mergeSort le).filter greatest =
      before.filter greatest ++ [x] := by
    rw [filter_mergeSort trans total]
    · have hnone : after.filter greatest = [] := by
        refine List.filter_eq_nil_iff.mpr fun y hy hgreatest => ?_
        obtain ⟨hpy, hle⟩ := Bool.and_eq_true_iff.mp hgreatest
        simp [hafter y hy hpy] at hle
      rw [List.filter_append, List.filter_cons_of_pos (by simp [greatest, hx, hself x]), hnone]
    · refine List.pairwise_of_forall_mem_list fun a ha b hb => ?_
      obtain ⟨ha, hpa⟩ := List.mem_filter.mp ha
      obtain ⟨-, hpb⟩ := List.mem_filter.mp hb
      exact trans a x b (hall a ha (Bool.and_eq_true_iff.mp hpa).1) (Bool.and_eq_true_iff.mp hpb).2
  have hmem : x ∈ ((before ++ x :: after).mergeSort le).filter p := by simp [hx]
  have hne := List.ne_nil_of_mem hmem
  have hlast : greatest ((((before ++ x :: after).mergeSort le).filter p).getLast hne) = true := by
    have hsorted := (List.pairwise_mergeSort trans total (before ++ x :: after)).filter p
    have hp := (List.mem_filter.mp (List.getLast_mem hne)).2
    have hle := hsorted.rel_getLast_of_rel_getLast_getLast hmem (hself _)
    exact Bool.and_eq_true_iff.mpr ⟨hp, hle⟩
  have htwice : (((before ++ x :: after).mergeSort le).filter p).filter greatest =
      before.filter greatest ++ [x] := by
    rw [← hkept, List.filter_filter]
    exact List.filter_congr fun y _ => by simp [greatest, Bool.and_comm, Bool.and_left_comm]
  rw [List.getLast?_eq_some_getLast hne, ← List.getLast_filter_of_pos hne hlast,
    ← List.getLast?_eq_some_getLast, htwice, List.getLast?_concat]

end Order

section Values

variable {γ : Type} [LinearOrder γ] (value : β → γ)

theorem decide_le_trans (a b c : β) (hab : decide (value a ≤ value b) = true)
    (hbc : decide (value b ≤ value c) = true) : decide (value a ≤ value c) = true :=
  decide_eq_true (le_trans (of_decide_eq_true hab) (of_decide_eq_true hbc))

theorem decide_le_total (a b : β) :
    (decide (value a ≤ value b) || decide (value b ≤ value a)) = true := by
  simpa using le_total (value a) (value b)

theorem pairwise_mergeSort_le (items : List β) :
    (items.mergeSort fun a b => decide (value a ≤ value b)).Pairwise fun a b => value a ≤ value b :=
  (List.pairwise_mergeSort (decide_le_trans value) (decide_le_total value) items).imp
    of_decide_eq_true

/-- Of the entries with a property, sorted by their values, the last one is the last of the
greatest as they stood before. -/
theorem exists_getLast?_mergeSort_le {p : β → Bool} {items : List β} (h : ∃ x ∈ items, p x = true) :
    ∃ before x after, items = before ++ x :: after ∧ p x = true ∧
      (∀ y ∈ before, p y = true → value y ≤ value x) ∧
      (∀ y ∈ after, p y = true → value y < value x) ∧
      ((items.mergeSort fun a b => decide (value a ≤ value b)).filter p).getLast? = some x := by
  obtain ⟨before, x, after, rfl, hx, hbefore, hafter⟩ := exists_last_greatest value _ h
  refine ⟨before, x, after, rfl, hx, hbefore, hafter, ?_⟩
  apply getLast?_filter_mergeSort (decide_le_trans value) (decide_le_total value) hx
  · exact fun y hy hp => decide_eq_true (hbefore y hy hp)
  · exact fun y hy hp => decide_eq_false (not_le_of_gt (hafter y hy hp))

end Values

end Partitura
