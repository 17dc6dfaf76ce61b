import Mathlib.Data.List.Nodup
import Mathlib.Data.List.Perm.Subperm
import Partitura.Proofs.Text.Pieces
import Partitura.Script.Part

/-!
# Names are handed out once

A fresh name is an identifier, or that identifier with a number after it, and none of the
names handed out before. More numbers than names are never needed, since the numbered
identifiers are all different. A name keeps what its text begins with.
-/

namespace Partitura.Script

/-! ## Numbered identifiers -/

theorem numbered_injective (base : String) : Function.Injective (Names.numbered base) := by
  have hsuffix (k : Nat) : base ≠ base ++ "_" ++ toString k := by
    intro heq
    have hlength := congrArg (fun s : String => s.toList.length) heq
    simp at hlength
  intro m n h
  unfold Names.numbered at h
  split at h <;> split at h
  · next hm hn => rw [hm, hn]
  · exact absurd h (hsuffix n)
  · exact absurd h.symm (hsuffix m)
  · exact toString_nat_injective ((String.append_right_inj _).mp h)

theorem exists_firstFree (taken : List String) (base : String) (fuel n : Nat) :
    ∃ k, Names.firstFree taken base fuel n = Names.numbered base k := by
  induction fuel generalizing n with
  | zero => exact ⟨n, rfl⟩
  | succ fuel ih =>
    simp only [Names.firstFree]
    split
    · exact ih (n + 1)
    · exact ⟨n, rfl⟩

/-- If the search ends at a name that is taken, then all that it has tried are. -/
theorem mem_of_firstFree_mem {taken : List String} {base : String} {fuel n : Nat}
    (h : Names.firstFree taken base fuel n ∈ taken) :
    ∀ k, n ≤ k → k ≤ n + fuel → Names.numbered base k ∈ taken := by
  induction fuel generalizing n with
  | zero =>
    intro k hle hge
    obtain rfl : k = n := by omega
    exact h
  | succ fuel ih =>
    simp only [Names.firstFree] at h
    split at h
    · next hn =>
      intro k hle hge
      rcases Nat.eq_or_lt_of_le hle with rfl | hlt
      · exact hn
      · exact ih h k (by omega) (by omega)
    · next hn => exact absurd h hn

theorem firstFree_not_mem (taken : List String) (base : String) (n : Nat) :
    Names.firstFree taken base taken.length n ∉ taken := by
  intro h
  -- All names tried would be taken, and they are one more than the names taken.
  have hall := mem_of_firstFree_mem h
  have hsubset : (List.range' n (taken.length + 1)).map (Names.numbered base) ⊆ taken := by
    intro name hname
    obtain ⟨k, hk, rfl⟩ := List.mem_map.mp hname
    have hrange := List.mem_range'_1.mp hk
    exact hall k hrange.1 (by omega)
  have hnodup : ((List.range' n (taken.length + 1)).map (Names.numbered base)).Nodup :=
    List.Nodup.map (numbered_injective base) (List.nodup_range' 1)
  have hlength := (hnodup.subperm hsubset).length_le
  rw [List.length_map, List.length_range'] at hlength
  omega

/-! ## Handing out -/

namespace Names

/-- From one state to the next, some names are handed out: all different, and all new. -/
structure HandsOut (before : Names) (out : List String) (after : Names) : Prop where
  taken : after.taken = out.reverse ++ before.taken
  distinct : out.Nodup
  new : ∀ name ∈ out, name ∉ before.taken

theorem handsOut_nil (names : Names) : HandsOut names [] names := ⟨rfl, List.nodup_nil, nofun⟩

theorem HandsOut.append {a b c : Names} {xs ys : List String} (h : HandsOut a xs b)
    (h' : HandsOut b ys c) : HandsOut a (xs ++ ys) c := by
  have hapart : List.Disjoint xs ys := by
    intro name hx hy
    exact h'.new name hy (by simp [h.taken, hx])
  refine ⟨by simp [h'.taken, h.taken], ?_, ?_⟩
  · exact List.nodup_append'.mpr ⟨h.distinct, h'.distinct, hapart⟩
  · intro name hname
    rcases List.mem_append.mp hname with hx | hy
    · exact h.new name hx
    · exact fun htaken => h'.new name hy (by simp [h.taken, htaken])

theorem handsOut_fresh (names : Names) (raw : String) :
    HandsOut names [(names.fresh raw).1] (names.fresh raw).2 := by
  refine ⟨rfl, List.nodup_singleton _, ?_⟩
  intro name hname
  rw [List.mem_singleton.mp hname]
  exact firstFree_not_mem names.taken (identifier raw) 1

theorem handsOut_freshAll (names : Names) (raws : List String) :
    HandsOut names (names.freshAll raws).1 (names.freshAll raws).2 := by
  induction raws generalizing names with
  | nil => exact handsOut_nil names
  | cons raw rest ih => exact (handsOut_fresh names raw).append (ih (names.fresh raw).2)

theorem length_freshAll (names : Names) (raws : List String) :
    (names.freshAll raws).1.length = raws.length := by
  induction raws generalizing names with
  | nil => rfl
  | cons raw rest ih => exact congrArg (· + 1) (ih (names.fresh raw).2)

theorem length_getAll (names : Names) (keys : List String) :
    (names.getAll keys).1.length = keys.length := by
  induction keys generalizing names with
  | nil => rfl
  | cons key rest ih => exact congrArg (· + 1) (ih (names.get key).2)

theorem get_of_new {names : Names} {key : String} (h : key ∉ names.given.map Prod.fst) :
    names.get key =
      ((names.fresh key).1, { (names.fresh key).2 with
        given := (key, (names.fresh key).1) :: names.given }) := by
  have hfind : names.given.find? (fun e => e.1 == key) = none := by
    rw [List.find?_eq_none]
    intro e he heq
    exact h (List.mem_map.mpr ⟨e, he, beq_iff_eq.mp heq⟩)
  simp only [get, hfind]
  rfl

theorem handsOut_getAll (names : Names) {keys : List String} (hkeys : keys.Nodup)
    (hnew : ∀ key ∈ keys, key ∉ names.given.map Prod.fst) :
    HandsOut names (names.getAll keys).1 (names.getAll keys).2 := by
  induction keys generalizing names with
  | nil => exact handsOut_nil names
  | cons key rest ih =>
    obtain ⟨hkey, hrest⟩ := List.nodup_cons.mp hkeys
    have hget := get_of_new (hnew key List.mem_cons_self)
    have hfirst : HandsOut names [(names.get key).1] (names.get key).2 := by
      obtain ⟨htaken, hdistinct, hout⟩ := handsOut_fresh names key
      rw [hget]
      exact ⟨htaken, hdistinct, hout⟩
    refine hfirst.append (ih (names.get key).2 hrest ?_)
    intro key' hmem hgiven
    rw [hget, List.map_cons, List.mem_cons] at hgiven
    rcases hgiven with rfl | hgiven
    · exact hkey hmem
    · exact hnew key' (List.mem_cons_of_mem _ hmem) hgiven

end Names

/-! ## Symbols of effects -/

theorem effectSymbol_injective : Function.Injective effectSymbol :=
  fun _ _ h => (String.append_right_inj _).mp h

theorem effectName_effectSymbol (name : String) : effectName (effectSymbol name) = name := by
  have hlength : "fx_".length = 3 := rfl
  simp [effectName, effectSymbol, hlength]

theorem exists_identifier_effectSymbol (raw : String) :
    ∃ name, identifier (effectSymbol raw) = effectSymbol name := by
  refine ⟨String.ofList (identifierChars raw.toList), ?_⟩
  have hlist : (effectSymbol raw).toList = 'f' :: 'x' :: '_' :: raw.toList := by
    simp [effectSymbol]
  have hchars : identifierChars ('f' :: 'x' :: '_' :: raw.toList) =
      'f' :: 'x' :: '_' :: identifierChars raw.toList := rfl
  simp only [identifier, hlist, hchars]
  simp [effectSymbol, ← String.toList_inj]

theorem numbered_effectSymbol (name : String) (n : Nat) :
    Names.numbered (effectSymbol name) n = effectSymbol (Names.numbered name n) := by
  unfold Names.numbered effectSymbol
  split
  · rfl
  · simp only [String.append_assoc]

theorem exists_fresh_effectSymbol (names : Names) (raw : String) :
    ∃ name, (names.fresh (effectSymbol raw)).1 = effectSymbol name := by
  obtain ⟨base, hbase⟩ := exists_identifier_effectSymbol raw
  obtain ⟨n, hn⟩ := exists_firstFree names.taken (effectSymbol base) names.taken.length 1
  refine ⟨Names.numbered base n, ?_⟩
  rw [← numbered_effectSymbol, ← hn, ← hbase]
  rfl

theorem exists_freshAll_effectSymbol {names : Names} {raws : List String} {symbol : String}
    (h : symbol ∈ (names.freshAll (raws.map effectSymbol)).1) :
    ∃ name, symbol = effectSymbol name := by
  induction raws generalizing names with
  | nil => cases h
  | cons raw rest ih =>
    rcases List.mem_cons.mp h with rfl | h
    · exact exists_fresh_effectSymbol names raw
    · exact ih h

end Partitura.Script
