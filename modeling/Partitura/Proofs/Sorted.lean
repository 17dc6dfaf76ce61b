import Partitura.Controllers

/-!
# Tables in ascending order

Inserting keeps a table in order, so every table that is collected from a list is
in order. Collected once more, a table in order stays as it is. Tables in order are
the same if all keys have the same values in them, which also gives what laying a
table over another one comes to.
-/

namespace Partitura.Sorted

variable {β : Type}

def Ascending (entries : List (String × β)) : Prop := entries.Pairwise fun a b => a.1 < b.1

theorem ascending_nil : Ascending ([] : List (String × β)) := List.Pairwise.nil

theorem ascending_cons {e : String × β} {entries : List (String × β)} :
    Ascending (e :: entries) ↔ (∀ f ∈ entries, e.1 < f.1) ∧ Ascending entries :=
  List.pairwise_cons

theorem mem_insert {key : String} {value : β} {entries : List (String × β)} {e : String × β}
    (h : e ∈ insert key value entries) : e = (key, value) ∨ e ∈ entries := by
  induction entries with
  | nil => exact .inl (List.mem_singleton.mp h)
  | cons f rest ih =>
    obtain ⟨k, v⟩ := f
    unfold insert at h
    split at h
    · exact List.mem_cons.mp h
    · split at h
      · rcases List.mem_cons.mp h with h | h
        · exact .inl h
        · exact .inr (List.mem_cons_of_mem _ h)
      · rcases List.mem_cons.mp h with h | h
        · exact .inr (List.mem_cons.mpr (.inl h))
        · exact (ih h).imp id (List.mem_cons_of_mem _)

theorem ascending_insert (key : String) (value : β) {entries : List (String × β)}
    (h : Ascending entries) : Ascending (insert key value entries) := by
  induction entries with
  | nil => exact List.pairwise_singleton _ _
  | cons f rest ih =>
    obtain ⟨k, v⟩ := f
    obtain ⟨hk, hrest⟩ := ascending_cons.mp h
    unfold insert
    split
    · rename_i hlt
      refine ascending_cons.mpr ⟨fun e he => ?_, h⟩
      rcases List.mem_cons.mp he with rfl | he
      · exact hlt
      · exact String.lt_trans hlt (hk e he)
    · split
      · rename_i heq
        exact ascending_cons.mpr ⟨heq ▸ hk, hrest⟩
      · rename_i hlt hne
        refine ascending_cons.mpr ⟨fun e he => ?_, ih hrest⟩
        rcases mem_insert he with rfl | he
        · exact Std.lt_of_le_of_ne (Std.not_lt.mp hlt) (Ne.symm hne)
        · exact hk e he

theorem ascending_ofList (entries : List (String × β)) : Ascending (ofList entries) :=
  List.foldlRecOn entries (fun m e => insert e.1 e.2 m) ascending_nil
    fun _ h e _ => ascending_insert e.1 e.2 h

theorem insert_eq_append {key : String} {value : β} {entries : List (String × β)}
    (h : ∀ e ∈ entries, e.1 < key) : insert key value entries = entries ++ [(key, value)] := by
  induction entries with
  | nil => rfl
  | cons f rest ih =>
    obtain ⟨k, v⟩ := f
    have hk : k < key := h _ (List.mem_cons_self ..)
    have hne : key ≠ k := by
      rintro rfl
      exact String.lt_irrefl _ hk
    rw [insert, if_neg (String.lt_asymm hk), if_neg hne,
      ih fun e he => h e (List.mem_cons_of_mem _ he)]
    rfl

theorem foldl_insert_eq_append {entries : List (String × β)} (h : Ascending entries)
    (before : List (String × β)) (hb : ∀ a ∈ before, ∀ e ∈ entries, a.1 < e.1) :
    entries.foldl (fun m e => insert e.1 e.2 m) before = before ++ entries := by
  induction entries generalizing before with
  | nil => simp
  | cons e rest ih =>
    obtain ⟨he, hrest⟩ := ascending_cons.mp h
    rw [List.foldl_cons, insert_eq_append fun a ha => hb a ha e (List.mem_cons_self ..), ih hrest]
    · simp
    · intro a ha f hf
      rcases List.mem_append.mp ha with ha | ha
      · exact hb a ha f (List.mem_cons_of_mem _ hf)
      · rw [List.mem_singleton.mp ha]
        exact he f hf

theorem ofList_eq_self {entries : List (String × β)} (h : Ascending entries) :
    ofList entries = entries :=
  foldl_insert_eq_append h [] (by simp)

/-! Values at keys. -/

@[simp] theorem get?_nil (key : String) : get? key ([] : List (String × β)) = none := rfl

theorem get?_cons (key k : String) (v : β) (entries : List (String × β)) :
    get? key ((k, v) :: entries) = if key = k then some v else get? key entries := by
  unfold get?
  by_cases h : key = k
  · simp [h]
  · simp [h, Ne.symm h]

theorem get?_insert (k key : String) (value : β) (entries : List (String × β)) :
    get? k (insert key value entries) = if k = key then some value else get? k entries := by
  induction entries with
  | nil => rw [insert, get?_cons]
  | cons f rest ih =>
    obtain ⟨l, v⟩ := f
    unfold insert
    split
    · rw [get?_cons]
    · split
      · next heq =>
        subst heq
        rw [get?_cons, get?_cons]
        split <;> rfl
      · next hne =>
        rw [get?_cons, get?_cons, ih]
        by_cases hl : k = l
        · rw [if_pos hl, if_pos hl, if_neg (hl ▸ Ne.symm hne)]
        · rw [if_neg hl, if_neg hl]

theorem mem_keys_iff {key : String} {entries : List (String × β)} :
    key ∈ entries.map Prod.fst ↔ (get? key entries).isSome = true := by
  simp [get?]

def Distinct (entries : List (String × β)) : Prop := entries.Pairwise fun a b => a.1 ≠ b.1

theorem distinct_iff_nodup {entries : List (String × β)} :
    Distinct entries ↔ (entries.map Prod.fst).Nodup := List.pairwise_map.symm

theorem Ascending.distinct {entries : List (String × β)} (h : Ascending entries) :
    Distinct entries := by
  unfold Ascending at h
  refine h.imp fun hlt heq => ?_
  rw [heq] at hlt
  exact String.lt_irrefl _ hlt

theorem get?_eq_some_iff {entries : List (String × β)} (h : Distinct entries) {key : String}
    {v : β} : get? key entries = some v ↔ (key, v) ∈ entries := by
  induction entries with
  | nil => simp
  | cons f rest ih =>
    obtain ⟨k, w⟩ := f
    obtain ⟨hk, hrest⟩ := List.pairwise_cons.mp h
    rw [get?_cons, List.mem_cons, Prod.mk.injEq]
    by_cases hkey : key = k
    · subst hkey
      have habsent : (key, v) ∉ rest := fun hmem => hk _ hmem rfl
      simp [habsent, eq_comm]
    · rw [if_neg hkey, ih hrest]
      simp [hkey]

theorem eq_of_mem_iff {entries entries' : List (String × β)} (h : Ascending entries)
    (h' : Ascending entries') (hmem : ∀ e, e ∈ entries ↔ e ∈ entries') : entries = entries' := by
  have hnodup {l : List (String × β)} (hl : Ascending l) : l.Nodup :=
    hl.distinct.imp fun hne heq => hne (congrArg Prod.fst heq)
  have hperm := (List.perm_ext_iff_of_nodup (hnodup h) (hnodup h')).mpr hmem
  exact hperm.eq_of_pairwise
    (fun _ _ _ _ hab hba => absurd hba (String.lt_asymm hab)) h h'

theorem eq_of_get? {entries entries' : List (String × β)} (h : Ascending entries)
    (h' : Ascending entries') (hget : ∀ key, get? key entries = get? key entries') :
    entries = entries' :=
  eq_of_mem_iff h h' fun e => by
    rw [← get?_eq_some_iff h.distinct, ← get?_eq_some_iff h'.distinct, hget]

/-! Laying tables over one another. -/

def overlayWith (f : Option β → β → β) (base : Sorted β) (above : List (String × β)) : Sorted β :=
  above.foldl (fun m e => insert e.1 (f (get? e.1 m) e.2) m) base

section Overlay

variable {f : Option β → β → β}

theorem ascending_overlayWith {base : Sorted β} (h : Ascending base)
    (above : List (String × β)) : Ascending (overlayWith f base above) :=
  List.foldlRecOn above _ h fun _ hm e _ => ascending_insert e.1 _ hm

theorem forall_overlayWith {P : β → Prop} {base : Sorted β} {above : List (String × β)}
    (hbase : ∀ e ∈ base, P e.2)
    (habove : ∀ e ∈ above, ∀ o : Option β, (∀ v ∈ o, P v) → P (f o e.2)) :
    ∀ e ∈ overlayWith f base above, P e.2 := by
  refine List.foldlRecOn (motive := fun m : Sorted β => ∀ e ∈ m, P e.2) above _ hbase
    fun m hm e he d hd => ?_
  rcases mem_insert hd with rfl | hd
  · refine habove e he _ fun v hv => ?_
    obtain ⟨d, hd, rfl⟩ := Option.map_eq_some_iff.mp (Option.mem_def.mp hv)
    exact hm d (List.mem_of_find?_eq_some hd)
  · exact hm d hd

theorem get?_overlayWith {above : List (String × β)} (h : Distinct above) (base : Sorted β)
    (key : String) :
    get? key (overlayWith f base above) =
      match get? key above with
      | none => get? key base
      | some v => some (f (get? key base) v) := by
  induction above generalizing base with
  | nil => rfl
  | cons e rest ih =>
    obtain ⟨k, v⟩ := e
    obtain ⟨hk, hrest⟩ := List.pairwise_cons.mp h
    have hstep : overlayWith f base ((k, v) :: rest) =
        overlayWith f (insert k (f (get? k base) v) base) rest := rfl
    rw [hstep, ih hrest, get?_insert, get?_cons]
    by_cases hkey : key = k
    · subst hkey
      have habsent : get? key rest = none := by
        refine Option.eq_none_iff_forall_ne_some.mpr fun w hw => ?_
        exact hk _ ((get?_eq_some_iff hrest).mp hw) rfl
      simp only [habsent, if_true]
    · simp only [if_neg hkey]

theorem overlayWith_overlayWith {base : Sorted β} {above : List (String × β)}
    (hbase : Ascending base) (habove : Ascending above)
    (hself : ∀ e ∈ base, f (some e.2) e.2 = e.2)
    (htwice : ∀ e ∈ above, ∀ o : Option β, (∀ v ∈ o, ∃ b ∈ base, b.2 = v) →
      f o (f o e.2) = f o e.2) :
    overlayWith f base (overlayWith f base above) = overlayWith f base above := by
  have hascending : Ascending (overlayWith f base above) := ascending_overlayWith hbase above
  -- both sides are in order, so it is enough to look up one key at a time
  refine eq_of_get? (ascending_overlayWith hbase _) hascending fun key => ?_
  rw [get?_overlayWith hascending.distinct, get?_overlayWith habove.distinct]
  cases ha : get? key above with
  | none =>
    cases hb : get? key base with
    | none => rfl
    | some v => exact congrArg some (hself _ ((get?_eq_some_iff hbase.distinct).mp hb))
  | some v =>
    refine congrArg some (htwice _ ((get?_eq_some_iff habove.distinct).mp ha) _ fun w hw => ?_)
    exact ⟨(key, w), (get?_eq_some_iff hbase.distinct).mp hw, rfl⟩

end Overlay

theorem forall_ofList {P : β → Prop} {l : List (String × β)} (h : ∀ e ∈ l, P e.2) :
    ∀ e ∈ ofList l, P e.2 :=
  forall_overlayWith (f := fun _ v => v) (fun _ he => nomatch he) fun e he _ _ => h e he

theorem get?_ofList {l : List (String × β)} (h : Distinct l) (key : String) :
    get? key (ofList l) = get? key l := by
  have hover := get?_overlayWith (f := fun _ v => v) h [] key
  rw [get?_nil] at hover
  refine Eq.trans hover ?_
  cases get? key l <;> rfl

theorem ofList_eq_of_perm {l entries : List (String × β)} (h : Ascending entries)
    (hperm : l.Perm entries) : ofList l = entries := by
  have hdistinct : Distinct l := (hperm.pairwise_iff fun h => Ne.symm h).mpr h.distinct
  refine eq_of_mem_iff (ascending_ofList l) h fun e => ?_
  rw [← get?_eq_some_iff (ascending_ofList l).distinct, get?_ofList hdistinct,
    get?_eq_some_iff hdistinct]
  exact hperm.mem_iff

end Partitura.Sorted
