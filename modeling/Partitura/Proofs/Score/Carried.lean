import Partitura.Proofs.Number.Exact
import Partitura.Proofs.Score.Settle

/-!
# What settling pitches carries over

Settling changes the notes in the lists of notes of the listed parts, and nothing else of a
document. A note with one pitch between two numbers sounds as it did, its pitch and its detuning
taken together; in a chord each such pitch becomes the number nearest to it.
-/

namespace Partitura

open Json

/-! ## Objects and lists that change in some places -/

namespace Json

variable {α : Type}

/-- Fields that change at most at some keys: all keys stay where they are, new ones come after
them, and every other key keeps its value. -/
structure KeepsBut (changed : List String) (fields fields' : List (String × Json α)) : Prop where
  keys : ∃ new, new.Nodup ∧ new ⊆ changed ∧ (∀ key ∈ new, key ∉ fields.map Prod.fst) ∧
    fields'.map Prod.fst = fields.map Prod.fst ++ new
  others : ∀ key ∉ changed, lookup key fields' = lookup key fields

theorem keepsBut_put (key : String) (value : Json α) (fields : List (String × Json α)) :
    KeepsBut [key] fields (put key value fields) where
  keys := by
    rw [keys_put]
    split
    · exact ⟨[], List.nodup_nil, List.nil_subset _, nofun, (List.append_nil _).symm⟩
    · next hnew =>
      exact ⟨[key], List.pairwise_singleton _ key, List.Subset.refl _,
        List.forall_mem_singleton.mpr hnew, rfl⟩
  others other hother := lookup_put_of_ne (List.ne_of_not_mem_cons hother) value fields

theorem KeepsBut.mono {changed changed' : List String} {fs gs : List (String × Json α)}
    (h : KeepsBut changed fs gs) (hsub : changed ⊆ changed') : KeepsBut changed' fs gs where
  keys := by
    obtain ⟨new, hnodup, hnew, hkeys⟩ := h.keys
    exact ⟨new, hnodup, List.Subset.trans hnew hsub, hkeys⟩
  others key hkey := h.others key fun hmem => hkey (hsub hmem)

theorem KeepsBut.trans {changed changed' : List String} {fs gs hs : List (String × Json α)}
    (h : KeepsBut changed fs gs) (h' : KeepsBut changed' gs hs) :
    KeepsBut (changed ++ changed') fs hs where
  keys := by
    obtain ⟨new, hnodup, hsub, hnew, hkeys⟩ := h.keys
    obtain ⟨new', hnodup', hsub', hnew', hkeys'⟩ := h'.keys
    rw [hkeys] at hnew' hkeys'
    refine ⟨new ++ new', List.nodup_append.mpr ⟨hnodup, hnodup', ?_⟩,
      List.append_subset.mpr ⟨List.subset_append_of_subset_left _ hsub,
        List.subset_append_of_subset_right _ hsub'⟩, ?_, by rw [hkeys', List.append_assoc]⟩
    · rintro key hkey _ hkey' rfl
      exact hnew' key hkey' (List.mem_append_right _ hkey)
    · intro key hkey
      rcases List.mem_append.mp hkey with hkey | hkey
      · exact hnew key hkey
      · exact fun hmem => hnew' key hkey (List.mem_append_left _ hmem)
  others key hkey := by
    rw [List.mem_append, not_or] at hkey
    rw [h'.others key hkey.2, h.others key hkey.1]

/-- Values of which one has come from the other by a change of the entries of the list at a key,
one by one; without such a list nothing has changed. -/
inductive ListsAt (key : String) (R : Json α → Json α → Prop) : Json α → Json α → Prop where
  | list {fields fields' : List (String × Json α)} {items items' : List (Json α)} :
    lookup key fields = some (.arr items) → lookup key fields' = some (.arr items') →
    KeepsBut [key] fields fields' → List.Forall₂ R items items' →
    ListsAt key R (.obj fields) (.obj fields')
  | none {j : Json α} : (∀ items, j.get? key ≠ some (.arr items)) → ListsAt key R j j

theorem listsAt_mapListAt {key : String} {R : Json α → Json α → Prop} {f : Json α → Json α}
    (h : ∀ j, R j (f j)) (j : Json α) : ListsAt key R j (mapListAt key f j) := by
  unfold mapListAt
  split
  · next fields =>
    split
    · next items hitems =>
      exact .list hitems (lookup_put_self _ _ _) (keepsBut_put _ _ _)
        (List.forall₂_map_right_iff.mpr (List.forall₂_same.mpr fun i _ => h i))
    · next hnone => exact .none hnone
  · next hother =>
    refine .none fun items hitems => ?_
    cases j with
    | obj fields => exact hother fields rfl
    | _ => cases hitems

end Json

/-! ## Pitches -/

/-- The whole number that a pitch rounds to: the nearest, and of two the one farther from zero. -/
structure Nearest (n : Int) (x : Rat) : Prop where
  near : |x - n| ≤ 1 / 2
  tie : |x - n| = 1 / 2 → |x| < |(n : Rat)|

theorem Nearest.neg {n : Int} {x : Rat} (h : Nearest n x) : Nearest (-n) (-x) := by
  have hdiff : -x - ((-n : Int) : Rat) = -(x - n) := by
    push_cast
    ring
  refine ⟨?_, fun htie => ?_⟩
  · rw [hdiff, abs_neg]
    exact h.near
  · rw [hdiff, abs_neg] at htie
    push_cast
    rw [abs_neg, abs_neg]
    exact h.tie htie

theorem nearest_roundHalfAway (x : Rat) : Nearest (Number.roundHalfAway x) x := by
  have hnonneg {y : Rat} (hy : 0 ≤ y) : Nearest (Number.roundHalfAway y) y := by
    obtain ⟨hlow, hhigh⟩ := (Number.roundHalfAway_eq_iff_of_nonneg hy).mp rfl
    refine ⟨abs_le.mpr ⟨by linarith, by linarith⟩, fun htie => ?_⟩
    rcases (abs_eq (by norm_num : (0 : Rat) ≤ 1 / 2)).mp htie with h | h
    · linarith
    · rw [abs_of_nonneg hy]
      exact lt_of_lt_of_le (by linarith) (le_abs_self _)
  rcases le_or_gt 0 x with h | h
  · exact hnonneg h
  · rw [Number.roundHalfAway_of_neg h]
    simpa using (hnonneg (neg_nonneg.mpr h.le)).neg

def Fits (x : Rat) : Prop :=
  -9223372036854775808 - 1 / 2 < x ∧ x < 9223372036854775807 + 1 / 2

theorem integer_round {x : Rat} (h : Fits x) :
    Scalar.integer (Scalar.round x) = Number.roundHalfAway x := by
  obtain ⟨hlow, hhigh⟩ := abs_le.mp (nearest_roundHalfAway x).near
  obtain ⟨hmin, hmax⟩ := h
  have hlo : (-9223372036854775809 : Rat) < Number.roundHalfAway x := by linarith
  have hhi : (Number.roundHalfAway x : Rat) < 9223372036854775808 := by linarith
  have hlo' : -9223372036854775809 < Number.roundHalfAway x := by exact_mod_cast hlo
  have hhi' : Number.roundHalfAway x < 9223372036854775808 := by exact_mod_cast hhi
  show max (-9223372036854775808) (min 9223372036854775807
    (Number.wholeOfRat ((Number.roundHalfAway x : Int) : Rat))) = _
  rw [Number.wholeOfRat_intCast]
  omega

/-- A pitch of a chord after settling: a number that is not written as an integer has become the
one that it rounds to. -/
inductive RoundedPitch : Json Rat → Json Rat → Prop where
  | real {x : Rat} {n : Int} : (Fits x → Nearest n x) → RoundedPitch (.real x) (.int n)
  | kept {j : Json Rat} : (∀ x, j ≠ .real x) → RoundedPitch j j

theorem roundedPitch_roundPitch (j : Json Rat) : RoundedPitch j (roundPitch j) := by
  cases j with
  | real x =>
    refine .real fun h => ?_
    rw [integer_round h]
    exact nearest_roundHalfAway x
  | _ => exact .kept nofun

/-! ## Notes -/

def cents? (fields : List (String × Json Rat)) : Option Rat :=
  match lookup "microtuning" fields with
  | none => some 0
  | some .null => some 0
  | some j => j.scalar?

/-- A note after settling. One pitch that is not written as an integer has become the integer that
it rounds to, and the detuning makes up for the rest; in a chord the pitches alone have changed;
any other note is as it was. -/
inductive CarriedNote : Json Rat → Json Rat → Prop where
  | single {fields fields' : List (String × Json Rat)} {x : Rat} {n : Int} :
    lookup "note" fields = some (.real x) → lookup "note" fields' = some (.int n) →
    KeepsBut ["note", "microtuning"] fields fields' →
    (Fits x → Nearest n x ∧ ∀ m ∈ cents? fields, ∃ m' ∈ cents? fields',
      100 * n + m' = 100 * x + m) →
    CarriedNote (.obj fields) (.obj fields')
  | chord {fields fields' : List (String × Json Rat)} {pitches pitches' : List (Json Rat)} :
    lookup "note" fields = some (.arr pitches) → lookup "note" fields' = some (.arr pitches') →
    KeepsBut ["note"] fields fields' → List.Forall₂ RoundedPitch pitches pitches' →
    CarriedNote (.obj fields) (.obj fields')
  | kept {j : Json Rat} : (∀ x, j.get? "note" ≠ some (.real x)) →
    (∀ pitches, j.get? "note" ≠ some (.arr pitches)) → CarriedNote j j

theorem cents?_congr {fields fields' : List (String × Json Rat)}
    (h : lookup "microtuning" fields' = lookup "microtuning" fields) :
    cents? fields' = cents? fields := by
  unfold cents?
  rw [h]

theorem cents?_put (x : Rat) (fields : List (String × Json Rat)) :
    cents? (put "microtuning" (ofScalar x) fields) = some x := by
  unfold cents?
  rw [lookup_put_self]
  rfl

theorem getD_of_cents? {fields : List (String × Json Rat)} {m : Rat} (h : cents? fields = some m) :
    ((lookup "microtuning" fields).bind scalar?).getD (Scalar.ofInt 0) = m := by
  unfold cents? at h
  split at h
  · next hnone =>
    rw [hnone]
    exact Option.some.inj h
  · next hnull =>
    rw [hnull]
    exact Option.some.inj h
  · next j _ hj =>
    rw [hj, Option.bind_some, h]
    rfl

theorem lookup_microtuning_put (value : Json Rat) (fields : List (String × Json Rat)) :
    lookup "microtuning" (put "note" value fields) = lookup "microtuning" fields :=
  lookup_put_of_ne (by decide) value fields

theorem settlePitch_of_real {fields : List (String × Json Rat)} {x : Rat}
    (hnote : lookup "note" fields = some (.real x)) : settlePitch fields =
      if ((x - Scalar.round x) * Scalar.ofInt 100 == Scalar.ofInt 0) = true then
        put "note" (.int (Scalar.integer (Scalar.round x))) fields
      else put "microtuning" (ofScalar (((lookup "microtuning" fields).bind scalar?).getD
          (Scalar.ofInt 0) + (x - Scalar.round x) * Scalar.ofInt 100))
        (put "note" (.int (Scalar.integer (Scalar.round x))) fields) := by
  unfold settlePitch
  rw [hnote]
  simp only [splitPitch, lookup_microtuning_put]
  rfl

theorem carriedNote_real {fields : List (String × Json Rat)} {x : Rat}
    (hnote : lookup "note" fields = some (.real x)) :
    CarriedNote (.obj fields) (.obj (settlePitch fields)) := by
  rw [settlePitch_of_real hnote]
  split
  · next hwhole =>
    refine .single hnote (lookup_put_self _ _ _) ((keepsBut_put _ _ _).mono (by decide))
      fun hfits => ?_
    rw [integer_round hfits]
    have hcents (value : Json Rat) : cents? (put "note" value fields) = cents? fields :=
      cents?_congr (lookup_microtuning_put value fields)
    refine ⟨nearest_roundHalfAway x, fun m hm => ⟨m, (hcents _).trans hm, ?_⟩⟩
    have hzero : (x - Number.roundHalfAway x) * ((100 : Int) : Rat) = ((0 : Int) : Rat) :=
      eq_of_beq hwhole
    push_cast at hzero
    linarith
  · next hwhole =>
    have hmoved (detuning value : Json Rat) :
        lookup "note" (put "microtuning" detuning (put "note" value fields)) = some value :=
      (lookup_put_of_ne (by decide) _ _).trans (lookup_put_self _ _ _)
    refine .single hnote (hmoved _ _) ((keepsBut_put _ _ _).trans (keepsBut_put _ _ _))
      fun hfits => ?_
    rw [integer_round hfits]
    refine ⟨nearest_roundHalfAway x, fun m hm => ⟨_, cents?_put _ _, ?_⟩⟩
    rw [getD_of_cents? hm]
    show 100 * (Number.roundHalfAway x : Rat) +
      (m + (x - Number.roundHalfAway x) * ((100 : Int) : Rat)) = 100 * x + m
    push_cast
    ring

theorem carriedNote_settlePitch (fields : List (String × Json Rat)) :
    CarriedNote (.obj fields) (.obj (settlePitch fields)) := by
  by_cases hreal : ∃ x, lookup "note" fields = some (.real x)
  · obtain ⟨x, hnote⟩ := hreal
    exact carriedNote_real hnote
  · unfold settlePitch
    split
    · next pitches hnote =>
      exact .chord hnote (lookup_put_self _ _ _) (keepsBut_put _ _ _)
        (List.forall₂_map_right_iff.mpr
          (List.forall₂_same.mpr fun i _ => roundedPitch_roundPitch i))
    · next pitch hnotlist hnote =>
      have hkept : CarriedNote (.obj fields) (.obj fields) := by
        refine .kept (fun x h => hreal ⟨x, h⟩) fun pitches h => ?_
        exact hnotlist pitches (Option.some.inj (hnote.symm.trans h))
      cases pitch with
      | real x => exact absurd ⟨x, hnote⟩ hreal
      | _ => exact hkept
    · next hnote =>
      exact .kept (fun x h => hreal ⟨x, h⟩) fun pitches h => nomatch hnote.symm.trans h

theorem carriedNote_settleNote (j : Json Rat) : CarriedNote j (settleNote j) := by
  cases j with
  | obj fields => exact carriedNote_settlePitch fields
  | _ => exact .kept nofun nofun

/-! ## Documents -/

/-- Settling pitches changes the notes of the listed parts alone, and each of them carries its
pitch over. -/
theorem listsAt_settlePitches (j : Json Rat) :
    ListsAt "sequences" (ListsAt "notes" CarriedNote) j (settlePitches j) :=
  listsAt_mapListAt (listsAt_mapListAt carriedNote_settleNote) j

end Partitura
