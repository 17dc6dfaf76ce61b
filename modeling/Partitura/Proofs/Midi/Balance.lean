import Partitura.Midi.Track

/-!
# Balanced streams

A stream of events is balanced if at every place of it no more notes have ended
than begun, and at its end as many. Streams that are balanced each on their own
stay so however they are interleaved.
-/

namespace Partitura.Midi

section Counting

variable {β : Type}

/-- At no place more ends than beginnings, and in all as many. -/
structure Balanced (begins ends : β → Bool) (l : List β) : Prop where
  upTo : ∀ heard, heard <+: l → heard.countP ends ≤ heard.countP begins
  total : l.countP ends = l.countP begins

variable {begins ends : β → Bool} {l : List β}

theorem balanced_of_silent (h : ∀ x ∈ l, begins x = false ∧ ends x = false) :
    Balanced begins ends l := by
  have hzero (p : β → Bool) (hp : ∀ x ∈ l, p x = false) {heard : List β} (hsub : heard ⊆ l) :
      heard.countP p = 0 :=
    List.countP_eq_zero.mpr fun x hx => by simp [hp x (hsub hx)]
  constructor
  · intro heard hheard
    rw [hzero ends (fun x hx => (h x hx).2) hheard.subset]
    exact Nat.zero_le _
  · rw [hzero ends (fun x hx => (h x hx).2) (List.Subset.refl l),
      hzero begins (fun x hx => (h x hx).1) (List.Subset.refl l)]

theorem balanced_append {xs ys : List β} (hxs : ∀ x ∈ xs, ends x = false)
    (hys : ∀ y ∈ ys, begins y = false) (hcount : ys.countP ends = xs.countP begins) :
    Balanced begins ends (xs ++ ys) := by
  have hxs : xs.countP ends = 0 := List.countP_eq_zero.mpr fun x hx => by simp [hxs x hx]
  have hys : ys.countP begins = 0 := List.countP_eq_zero.mpr fun y hy => by simp [hys y hy]
  constructor
  · intro heard hheard
    -- The stream is left off either among the beginnings or among the ends.
    rcases List.prefix_or_prefix_of_prefix hheard (List.prefix_append xs ys) with hpre | ⟨q, rfl⟩
    · have hle : heard.countP ends ≤ xs.countP ends := hpre.sublist.countP_le
      omega
    · have hq : q <+: ys := (List.prefix_append_right_inj xs).mp hheard
      have hle : q.countP ends ≤ ys.countP ends := hq.sublist.countP_le
      simp only [List.countP_append]
      omega
  · simp only [List.countP_append]
    omega

theorem Balanced.of_filter {q : β → Bool} (h : Balanced begins ends (l.filter q))
    (h' : Balanced begins ends (l.filter fun x => !q x)) : Balanced begins ends l := by
  constructor
  · intro heard hheard
    have hle := h.upTo _ (hheard.filter q)
    have hle' := h'.upTo _ (hheard.filter fun x => !q x)
    rw [List.countP_eq_countP_filter_add heard ends q,
      List.countP_eq_countP_filter_add heard begins q]
    exact Nat.add_le_add hle hle'
  · rw [List.countP_eq_countP_filter_add l ends q, List.countP_eq_countP_filter_add l begins q]
    rw [h.total]
    exact congrArg _ h'.total

theorem balanced_of_parts (part : β → Option Nat) (count : Nat)
    (hpart : ∀ k, Balanced begins ends (l.filter fun x => part x == some k))
    (hrest : Balanced begins ends (l.filter fun x => part x == none))
    (hcount : ∀ x ∈ l, ∀ k, part x = some k → k < count) : Balanced begins ends l := by
  -- One more part is added at a time; those below `n` are kept.
  have hbelow (n : Nat) :
      Balanced begins ends (l.filter fun x => (part x).all fun k => decide (k < n)) := by
    induction n with
    | zero =>
      have hnone : (l.filter fun x => (part x).all fun k => decide (k < 0)) =
          l.filter fun x => part x == none :=
        List.filter_congr fun x _ => by cases part x <;> simp
      rw [hnone]
      exact hrest
    | succ n ih =>
      refine .of_filter (q := fun x => (part x).all fun k => decide (k < n)) ?_ ?_
      · have hlower : ((l.filter fun x => (part x).all fun k => decide (k < n + 1)).filter
            fun x => (part x).all fun k => decide (k < n)) =
            l.filter fun x => (part x).all fun k => decide (k < n) := by
          rw [List.filter_filter]
          exact List.filter_congr fun x _ => by cases part x <;> grind
        rw [hlower]
        exact ih
      · have hlast : ((l.filter fun x => (part x).all fun k => decide (k < n + 1)).filter
            fun x => !(part x).all fun k => decide (k < n)) =
            l.filter fun x => part x == some n := by
          rw [List.filter_filter]
          exact List.filter_congr fun x _ => by cases part x <;> grind
        rw [hlast]
        exact hpart n
  have hall : (l.filter fun x => (part x).all fun k => decide (k < count)) = l := by
    refine List.filter_eq_self.mpr fun x hx => ?_
    cases h : part x with
    | none => rfl
    | some k => simpa using hcount x hx k h
  rw [← hall]
  exact hbelow count

theorem Balanced.map {γ : Type} {f : γ → β} {m : List γ}
    (h : Balanced (fun x => begins (f x)) (fun x => ends (f x)) m) :
    Balanced begins ends (m.map f) := by
  constructor
  · rintro heard ⟨rest, hrest⟩
    obtain ⟨heard, rest, rfl, rfl, rfl⟩ := List.map_eq_append_iff.mp hrest.symm
    have hle := h.upTo heard (List.prefix_append _ _)
    simpa only [List.countP_map, Function.comp_def] using hle
  · have htotal := h.total
    simpa only [List.countP_map, Function.comp_def] using htotal

end Counting

end Partitura.Midi
