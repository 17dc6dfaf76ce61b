import Partitura.Json.Basic
import Partitura.Proofs.Number.Lawful

/-!
# Values as a parser gives them

Integers fit 64 bits with or without a sign, numbers are finite, and the keys of
an object are distinct. Changing the value of a key and writing a number stay
among these values.
-/

namespace Partitura.Json

variable {α : Type}

inductive WellFormed [Scalar α] : Json α → Prop where
  | null : WellFormed .null
  | bool (b : Bool) : WellFormed (.bool b)
  | int {n : Int} : -9223372036854775808 ≤ n → n ≤ 18446744073709551615 → WellFormed (.int n)
  | real {x : α} : Scalar.isFinite x = true → WellFormed (.real x)
  | str (s : String) : WellFormed (.str s)
  | arr {items : List (Json α)} : (∀ j ∈ items, WellFormed j) → WellFormed (.arr items)
  | obj {fields : List (String × Json α)} : (fields.map Prod.fst).Nodup →
      (∀ f ∈ fields, WellFormed f.2) → WellFormed (.obj fields)

/-! Lookups. -/

theorem lookup_append (key : String) (fs gs : List (String × Json α)) :
    lookup key (fs ++ gs) = (lookup key fs).or (lookup key gs) := by
  induction fs with
  | nil => rfl
  | cons f fs ih =>
    simp only [List.cons_append, lookup]
    split
    · rfl
    · exact ih

theorem mem_of_lookup {key : String} {fields : List (String × Json α)} {j : Json α}
    (h : lookup key fields = some j) : (key, j) ∈ fields := by
  induction fields with
  | nil => cases h
  | cons f rest ih =>
    obtain ⟨k, v⟩ := f
    rw [lookup] at h
    split at h
    · rename_i hk
      cases h
      exact hk ▸ List.mem_cons_self ..
    · exact List.mem_cons_of_mem _ (ih h)

theorem lookup_of_mem {key : String} {fields : List (String × Json α)} {j : Json α}
    (hn : (fields.map Prod.fst).Nodup) (h : (key, j) ∈ fields) : lookup key fields = some j := by
  induction fields with
  | nil => cases h
  | cons f rest ih =>
    obtain ⟨k, v⟩ := f
    obtain ⟨hk, hrest⟩ := List.nodup_cons.mp hn
    rw [lookup]
    rcases List.mem_cons.mp h with h | h
    · cases h
      exact if_pos rfl
    · have hne : k ≠ key := by
        rintro rfl
        exact hk (List.mem_map.mpr ⟨_, h, rfl⟩)
      rw [if_neg hne, ih hrest h]

theorem isInt64_of_int64? {j : Json α} {n : Int} (h : j.int64? = some n) : isInt64 n = true := by
  unfold int64? at h
  split at h
  · split at h
    · rename_i hn
      cases h
      exact hn
    · cases h
  · cases h

/-! Changing the value of a key. -/

theorem put_eq_self {key : String} {fields : List (String × Json α)} {j : Json α}
    (h : lookup key fields = some j) : put key j fields = fields := by
  induction fields with
  | nil => cases h
  | cons f rest ih =>
    obtain ⟨k, v⟩ := f
    rw [lookup] at h
    rw [put]
    split
    · rename_i hk
      rw [if_pos hk] at h
      cases h
      rfl
    · rename_i hk
      rw [if_neg hk] at h
      rw [ih h]

theorem lookup_put_self (key : String) (value : Json α) (fields : List (String × Json α)) :
    lookup key (put key value fields) = some value := by
  induction fields with
  | nil => exact if_pos rfl
  | cons f rest ih =>
    obtain ⟨k, v⟩ := f
    rw [put]
    split
    · rename_i hk
      exact if_pos hk
    · rename_i hk
      rw [lookup, if_neg hk, ih]

theorem lookup_put_of_ne {key other : String} (hne : other ≠ key) (value : Json α)
    (fields : List (String × Json α)) :
    lookup other (put key value fields) = lookup other fields := by
  induction fields with
  | nil => exact if_neg (Ne.symm hne)
  | cons f rest ih =>
    obtain ⟨k, v⟩ := f
    rw [put]
    split
    · rename_i hk
      simp only [lookup, hk, if_neg (Ne.symm hne)]
    · simp only [lookup, ih]

theorem keys_put (key : String) (value : Json α) (fields : List (String × Json α)) :
    (put key value fields).map Prod.fst =
      if key ∈ fields.map Prod.fst then fields.map Prod.fst else fields.map Prod.fst ++ [key] := by
  induction fields with
  | nil => rfl
  | cons f rest ih =>
    obtain ⟨k, v⟩ := f
    rw [put]
    split
    · rename_i hk
      simp [hk]
    · rename_i hk
      simp only [List.map_cons, ih, List.mem_cons, Ne.symm hk, false_or]
      split <;> rfl

theorem mem_put {key : String} {value : Json α} {fields : List (String × Json α)}
    {f : String × Json α} (h : f ∈ put key value fields) : f = (key, value) ∨ f ∈ fields := by
  induction fields with
  | nil => exact .inl (List.mem_singleton.mp h)
  | cons g rest ih =>
    obtain ⟨k, v⟩ := g
    rw [put] at h
    split at h
    · rename_i hk
      rcases List.mem_cons.mp h with h | h
      · exact .inl (hk ▸ h)
      · exact .inr (List.mem_cons_of_mem _ h)
    · rcases List.mem_cons.mp h with h | h
      · exact .inr (List.mem_cons.mpr (.inl h))
      · exact (ih h).imp id (List.mem_cons_of_mem _)

namespace WellFormed

variable [Scalar α]

theorem items {items : List (Json α)} (h : WellFormed (.arr items)) :
    ∀ j ∈ items, j.WellFormed := by
  cases h with
  | arr h => exact h

theorem keys {fields : List (String × Json α)} (h : WellFormed (.obj fields)) :
    (fields.map Prod.fst).Nodup := by
  cases h with
  | obj hn _ => exact hn

theorem fields {fields : List (String × Json α)} (h : WellFormed (.obj fields)) :
    ∀ f ∈ fields, f.2.WellFormed := by
  cases h with
  | obj _ hf => exact hf

theorem lookup {key : String} {fields : List (String × Json α)} {j : Json α}
    (h : WellFormed (.obj fields)) (hl : Json.lookup key fields = some j) : j.WellFormed :=
  h.fields _ (mem_of_lookup hl)

theorem put {key : String} {value : Json α} {fields : List (String × Json α)}
    (h : WellFormed (.obj fields)) (hv : value.WellFormed) :
    WellFormed (.obj (put key value fields)) := by
  refine .obj ?_ fun f hf => ?_
  · rw [keys_put]
    split
    · exact h.keys
    · rename_i hnew
      refine List.nodup_append.mpr ⟨h.keys, List.pairwise_singleton _ key, fun a ha b hb => ?_⟩
      rw [List.mem_singleton.mp hb]
      rintro rfl
      exact hnew ha
  · rcases mem_put hf with rfl | hf
    · exact hv
    · exact h.fields f hf

theorem ofScalar (x : α) : (Json.ofScalar x).WellFormed := by
  unfold Json.ofScalar
  split
  · rename_i h
    exact .real h
  · exact .null

theorem array? {j : Json α} (h : j.WellFormed) {items : List (Json α)}
    (ha : j.array? = some items) : ∀ i ∈ items, i.WellFormed := by
  unfold Json.array? at ha
  split at ha
  · cases ha
    exact h.items
  · cases ha

theorem object? {j : Json α} (h : j.WellFormed) {fields : List (String × Json α)}
    (ho : j.object? = some fields) : WellFormed (.obj fields) := by
  unfold Json.object? at ho
  split at ho
  · cases ho
    exact h
  · cases ho

theorem isFinite_of_scalar? [LawfulScalar α] {j : Json α} (h : j.WellFormed) {x : α}
    (hx : j.scalar? = some x) : Scalar.isFinite x = true := by
  cases h with
  | int hlo hhi =>
    cases hx
    exact LawfulScalar.isFinite_ofInt _ hlo hhi
  | real hr =>
    cases hx
    exact hr
  | null => cases hx
  | bool => cases hx
  | str => cases hx
  | arr => cases hx
  | obj => cases hx

end WellFormed

end Partitura.Json
