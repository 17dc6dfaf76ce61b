import Mathlib.Data.List.Forall2

/-!
# Numbered entries

Lists whose entries are numbered and then treated one by one, each by its number, and lists that go
together entry by entry.
-/

namespace Partitura

variable {β γ : Type}

theorem forall_right_of_forall₂ {P : γ → Prop} {xs : List β} {ys : List γ}
    (h : List.Forall₂ (fun _ y => P y) xs ys) : ∀ y ∈ ys, P y := by
  induction h with
  | nil => exact nofun
  | cons hy _ ih => exact List.forall_mem_cons.mpr ⟨hy, ih⟩

theorem getElem?_filterMap_iff {f : β → Option γ} {items : List β} {k : Nat} {y : γ} :
    (items.filterMap f)[k]? = some y ↔ ∃ i x, items[i]? = some x ∧ f x = some y ∧
      ((items.take i).countP fun x => (f x).isSome) = k := by
  induction items generalizing k with
  | nil => simp
  | cons first rest ih =>
    constructor
    · intro h
      cases hfirst : f first with
      | none =>
        rw [List.filterMap_cons_none hfirst] at h
        obtain ⟨i, x, hx, hy, hk⟩ := ih.mp h
        exact ⟨i + 1, x, hx, hy, by simpa [hfirst] using hk⟩
      | some z =>
        rw [List.filterMap_cons_some hfirst] at h
        cases k with
        | zero => exact ⟨0, first, rfl, hfirst.trans h, rfl⟩
        | succ k =>
          obtain ⟨i, x, hx, hy, hk⟩ := ih.mp h
          exact ⟨i + 1, x, hx, hy, by simpa [hfirst] using hk⟩
    · rintro ⟨i, x, hx, hy, rfl⟩
      cases i with
      | zero =>
        obtain rfl : first = x := Option.some.inj hx
        rw [List.filterMap_cons_some hy]
        rfl
      | succ i =>
        have hrest := ih.mpr ⟨i, x, hx, hy, rfl⟩
        cases hfirst : f first with
        | none =>
          rw [List.filterMap_cons_none hfirst]
          simpa [hfirst] using hrest
        | some z =>
          rw [List.filterMap_cons_some hfirst]
          simpa [hfirst] using hrest

theorem forall₂_filterMap_zipIdx {R : β → Nat → γ → Prop} {f : β × Nat → Option γ}
    {items : List β} (h : ∀ x ∈ items, ∀ i, ∃ y, f (x, i) = some y ∧ R x i y) (s : Nat) :
    List.Forall₂ (fun x y => R x.1 x.2 y) (items.zipIdx s)
      ((items.zipIdx s).filterMap f) := by
  induction items generalizing s with
  | nil => exact .nil
  | cons x rest ih =>
    obtain ⟨y, hy, hR⟩ := h x (List.mem_cons_self ..) s
    rw [List.zipIdx_cons, List.filterMap_cons, hy]
    exact .cons hR (ih (fun z hz => h z (List.mem_cons_of_mem _ hz)) (s + 1))

theorem forall₂_of_zipIdx {R : β → γ → Prop} {items : List β} {ys : List γ} {s : Nat}
    (h : List.Forall₂ (fun x y => R x.1 y) (items.zipIdx s) ys) : List.Forall₂ R items ys := by
  have hmap := List.forall₂_map_left_iff (R := R) (f := Prod.fst).mpr h
  rwa [List.zipIdx_map_fst] at hmap

theorem forall₂_map_zipIdx {R : β → Nat → γ → Prop} {f : β × Nat → γ} {items : List β}
    (h : ∀ x ∈ items, ∀ i, R x i (f (x, i))) :
    List.Forall₂ (fun x y => R x.1 x.2 y) items.zipIdx (items.zipIdx.map f) := by
  rw [← List.filterMap_eq_map]
  exact forall₂_filterMap_zipIdx (fun x hx i => ⟨f (x, i), rfl, h x hx i⟩) 0

variable {items : List β} {g : β × Nat → List γ}

theorem flatMap_zipIdx_fst (g : β → List γ) (items : List β) :
    (items.zipIdx.flatMap fun x => g x.1) = items.flatMap g := by
  conv_rhs => rw [← List.zipIdx_map_fst 0 items, List.flatMap_map]

theorem zipIdx_eq_map_zip {flags : List γ} (h : items.length = flags.length) :
    items.zipIdx = (items.zip flags).zipIdx.map fun x => (x.1.1, x.2) := by
  have hfst : (items.zip flags).map Prod.fst = items := List.map_fst_zip (by omega)
  conv_lhs => rw [← hfst, List.zipIdx_map]
  rfl

theorem flatMap_zipIdx_eq_nil {s : Nat} (h : ∀ y i, s ≤ i → g (y, i) = []) :
    (items.zipIdx s).flatMap g = [] := by
  refine List.flatMap_eq_nil_iff.mpr fun x hx => ?_
  exact h x.1 x.2 (List.le_snd_of_mem_zipIdx hx)

theorem flatMap_zipIdx_one {s k : Nat} {x : β} (hx : items[k]? = some x)
    (h : ∀ y i, s ≤ i → i ≠ s + k → g (y, i) = []) :
    (items.zipIdx s).flatMap g = g (x, s + k) := by
  induction items generalizing s k with
  | nil => cases hx
  | cons y rest ih =>
    rw [List.zipIdx_cons, List.flatMap_cons]
    cases k with
    | zero =>
      obtain rfl : y = x := by simpa using hx
      rw [flatMap_zipIdx_eq_nil fun z i hi => h z i (by omega) (by omega), List.append_nil]
      rfl
    | succ k =>
      have hrest := ih (s := s + 1) (k := k) (by simpa using hx) fun z i hi hne =>
        h z i (by omega) (by omega)
      rw [h y s (by omega) (by omega), hrest, List.nil_append, Nat.add_right_comm,
        Nat.add_assoc]

theorem flatMap_zipIdx_two {s k l : Nat} {x y : β} (hkl : k < l) (hx : items[k]? = some x)
    (hy : items[l]? = some y)
    (h : ∀ z i, s ≤ i → i ≠ s + k → i ≠ s + l → g (z, i) = []) :
    (items.zipIdx s).flatMap g = g (x, s + k) ++ g (y, s + l) := by
  induction items generalizing s k l with
  | nil => cases hx
  | cons z rest ih =>
    rw [List.zipIdx_cons, List.flatMap_cons]
    obtain ⟨l, rfl⟩ : ∃ m, l = m + 1 := ⟨l - 1, by omega⟩
    have hy : rest[l]? = some y := by simpa using hy
    have hl : s + 1 + l = s + (l + 1) := by omega
    cases k with
    | zero =>
      obtain rfl : z = x := by simpa using hx
      rw [flatMap_zipIdx_one hy fun w i hi hne => h w i (by omega) (by omega) (by omega), hl]
      rfl
    | succ k =>
      have hk : s + 1 + k = s + (k + 1) := by omega
      have hrest := ih (s := s + 1) (k := k) (l := l) (by omega) (by simpa using hx) hy
        fun w i hi hne hne' => h w i (by omega) (by omega) (by omega)
      rw [h z s (by omega) (by omega) (by omega), hrest, List.nil_append, hk, hl]

end Partitura
