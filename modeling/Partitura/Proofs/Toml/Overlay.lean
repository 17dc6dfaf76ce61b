import Mathlib.Data.List.Induction
import Partitura.Proofs.Toml.Ordered

/-!
# Values at paths of tables laid over one another

A path of keys leads into tables within tables. A table settles what is at a path if it has a value
there, and also if it has a value on the way there that is no table. What it does not settle stays
as it was in the table below; what it settles is as it has it, except that tables which meet are
joined.
-/

namespace Partitura.Toml

open Sorted (Ascending)

variable {α : Type}

def at? : List String → Toml α → Option (Toml α)
  | [], v => some v
  | key :: path, .table entries => (Sorted.get? key entries).bind (at? path)
  | _ :: _, _ => none

/-- Whether there is a value at a path, or one on the way to it that is no table. -/
def settles : List String → Toml α → Bool
  | [], _ => true
  | key :: path, .table entries => (Sorted.get? key entries).any (settles path)
  | _ :: _, _ => true

theorem exists_table {v : Toml α} (h : v.isTable = true) : ∃ entries, v = .table entries := by
  cases v with
  | table entries => exact ⟨entries, rfl⟩
  | _ => cases h

theorem at?_cons_of_plain {v : Toml α} (h : v.isTable = false) (key : String) (path : List String) :
    v.at? (key :: path) = none := by
  cases v <;> first | rfl | cases h

theorem at?_singleton (entries : Sorted (Toml α)) (key : String) :
    (Toml.table entries).at? [key] = Sorted.get? key entries := by
  rw [at?]
  cases Sorted.get? key entries <;> rfl

theorem at?_table_cons (entries : Sorted (Toml α)) (key : String) (path : List String) :
    (Toml.table entries).at? (key :: path) = ((Toml.table entries).at? [key]).bind (at? path) := by
  rw [at?_singleton, at?]

theorem Ordered.at? {path : List String} {v w : Toml α} (h : Ordered v)
    (hw : v.at? path = some w) : Ordered w := by
  induction path generalizing v with
  | nil => exact Option.some.inj hw ▸ h
  | cons key path ih =>
    cases v with
    | table entries =>
      obtain ⟨u, hu, hw⟩ := Option.bind_eq_some_iff.mp hw
      exact ih (h.get? hu) hw
    | _ => cases hw

theorem settles_of_plain {v : Toml α} (h : v.isTable = false) (path : List String) :
    v.settles path = true := by
  cases path with
  | nil => rfl
  | cons key path => cases v <;> first | rfl | cases h

theorem settles_of_at? {path : List String} {v w : Toml α} (h : v.at? path = some w) :
    v.settles path = true := by
  induction path generalizing v with
  | nil => rfl
  | cons key path ih =>
    cases v with
    | table entries =>
      obtain ⟨u, hu, h⟩ := Option.bind_eq_some_iff.mp h
      rw [settles, hu]
      exact ih h
    | _ => rfl

theorem settles_iff {path : List String} {v : Toml α} : v.settles path = true ↔
    (v.at? path).isSome = true ∨
      ∃ before w, before <+: path ∧ v.at? before = some w ∧ w.isTable = false := by
  constructor
  · intro h
    induction path generalizing v with
    | nil => exact .inl rfl
    | cons key path ih =>
      cases htable : v.isTable with
      | false => exact .inr ⟨[], v, List.nil_prefix, rfl, htable⟩
      | true =>
        cases v with
        | table entries =>
          obtain ⟨u, hu, h⟩ := (Option.any_eq_true _ _).mp h
          have hat (p : List String) : (Toml.table entries).at? (key :: p) = u.at? p := by
            rw [at?, hu, Option.bind_some]
          rcases ih h with hsome | ⟨before, w, hprefix, hw, hplain⟩
          · exact .inl (hat path ▸ hsome)
          · exact .inr ⟨key :: before, w, (List.prefix_cons_inj key).mpr hprefix, hat _ ▸ hw, hplain⟩
        | _ => cases htable
  · rintro (hsome | ⟨before, w, ⟨later, rfl⟩, hw, hplain⟩)
    · obtain ⟨w, hw⟩ := Option.isSome_iff_exists.mp hsome
      exact settles_of_at? hw
    · induction before generalizing v with
      | nil =>
        cases hw
        exact settles_of_plain hplain _
      | cons key before ih =>
        cases v with
        | table entries =>
          obtain ⟨u, hu, hw⟩ := Option.bind_eq_some_iff.mp hw
          rw [List.cons_append, settles, hu]
          exact ih hw
        | _ => rfl

/-! ## One value over another -/

theorem overlay_of_plain {v : Toml α} (h : v.isTable = false) (o : Option (Toml α)) :
    overlay o v = v := by
  unfold overlay
  split
  · cases h
  · rfl

theorem overlay_of_noTable {o : Option (Toml α)} (h : ∀ base, o ≠ some (.table base))
    (v : Toml α) : overlay o v = v := by
  unfold overlay
  split
  · exact absurd rfl (h _)
  · rfl

theorem isTable_overlay (o : Option (Toml α)) (v : Toml α) : (overlay o v).isTable = v.isTable := by
  unfold overlay
  split <;> rfl

def tableBelow : Option (Toml α) → Sorted (Toml α)
  | some (.table base) => base
  | _ => []

theorem ordered_tableBelow {o : Option (Toml α)} (ho : ∀ b ∈ o, Ordered b) :
    Ordered (.table (tableBelow o)) := by
  unfold tableBelow
  split
  · exact ho _ rfl
  · exact .table Sorted.ascending_nil fun _ he => nomatch he

theorem at?_tableBelow (o : Option (Toml α)) (key : String) (path : List String) :
    (Toml.table (tableBelow o)).at? (key :: path) = o.bind (at? (key :: path)) := by
  cases o with
  | none => rfl
  | some b => cases b <;> rfl

section Joined

variable {above : Sorted (Toml α)}

theorem overlay_table (h : Ascending above) (o : Option (Toml α)) :
    overlay o (.table above) = .table (overlayTable (tableBelow o) above) := by
  cases o with
  | none => simp only [overlay_none, tableBelow, overlayTable_nil h]
  | some b => cases b <;> simp only [overlay, tableBelow, overlayTable_nil h]

theorem get?_overlayTable (h : Ascending above) (base : Sorted (Toml α)) (key : String) :
    Sorted.get? key (overlayTable base above) =
      match Sorted.get? key above with
      | none => Sorted.get? key base
      | some v => some (overlay (Sorted.get? key base) v) := by
  rw [overlayTable_eq, Sorted.get?_overlayWith h.distinct]
  cases Sorted.get? key above <;> rfl

end Joined

theorem ordered_overlay {v : Toml α} (hv : Ordered v) {o : Option (Toml α)}
    (ho : ∀ b ∈ o, Ordered b) : Ordered (overlay o v) := by
  induction hv generalizing o with
  | plain hplain =>
    rw [overlay_of_plain hplain]
    exact .plain hplain
  | @table entries hascending _ ih =>
    have hbase : Ordered (.table (tableBelow o)) := ordered_tableBelow ho
    rw [overlay_table hascending, overlayTable_eq]
    exact .table (Sorted.ascending_overlayWith hbase.ascending entries)
      (Sorted.forall_overlayWith hbase.inside fun e he o ho => ih e he ho)

theorem at?_overlay {path : List String} {v : Toml α} (hv : Ordered v) (o : Option (Toml α)) :
    (overlay o v).at? path =
      if v.settles path then (v.at? path).map (overlay (o.bind (at? path)))
      else o.bind (at? path) := by
  induction path generalizing v o with
  | nil => cases o <;> rfl
  | cons key path ih =>
    cases hv with
    | plain hplain =>
      rw [overlay_of_plain hplain, settles_of_plain hplain, if_pos rfl, at?_cons_of_plain hplain]
      rfl
    | @table entries hascending hinside =>
      rw [← at?_tableBelow, overlay_table hascending, at?, get?_overlayTable hascending, settles, at?, at?]
      cases hget : Sorted.get? key entries with
      | none => rfl
      | some w => exact ih (Ordered.get? (.table hascending hinside) hget) _

/-- A value that is laid over once more changes nothing. -/
theorem overlay_overlay {v : Toml α} (hv : Ordered v) {o : Option (Toml α)}
    (ho : ∀ b ∈ o, Ordered b) : overlay (some (overlay o v)) v = overlay o v := by
  induction hv generalizing o with
  | plain hplain => rw [overlay_of_plain hplain, overlay_of_plain hplain]
  | @table entries hascending hinside ih =>
    have hbase : Ordered (.table (tableBelow o)) := ordered_tableBelow ho
    have hjoined {base : Sorted (Toml α)} (h : Ascending base) :
        Ascending (overlayTable base entries) := by
      rw [overlayTable_eq]
      exact Sorted.ascending_overlayWith h entries
    rw [overlay_table hascending o, overlay]
    refine congrArg Toml.table (Sorted.eq_of_get? (hjoined (hjoined hbase.ascending))
      (hjoined hbase.ascending) fun key => ?_)
    simp only [get?_overlayTable hascending]
    cases hget : Sorted.get? key entries with
    | none => rfl
    | some w =>
      have hmem : (key, w) ∈ entries := (Sorted.get?_eq_some_iff hascending.distinct).mp hget
      exact congrArg some (ih _ hmem fun b hb => hbase.get? hb)

/-! ## One table over another -/

theorem ordered_overlayTable {base above : Sorted (Toml α)} (hbase : Ordered (.table base))
    (habove : Ordered (.table above)) : Ordered (.table (overlayTable base above)) := by
  have hresult := ordered_overlay habove (o := some (.table base)) fun b hb => by
    cases hb
    exact hbase
  rwa [overlay] at hresult

theorem at?_overlayTable {above : Sorted (Toml α)} (habove : Ordered (.table above))
    (base : Sorted (Toml α)) (path : List String) :
    (Toml.table (overlayTable base above)).at? path =
      if (Toml.table above).settles path then
        ((Toml.table above).at? path).map (overlay ((Toml.table base).at? path))
      else (Toml.table base).at? path := by
  rw [← overlay, at?_overlay habove]
  rfl

/-- What has become of a table over which another one has been laid. -/
structure LaidOver (base above result : Toml α) : Prop where
  given : ∀ path v, above.at? path = some v →
    (v.isTable = false ∨ ∀ entries, base.at? path ≠ some (.table entries)) →
    result.at? path = some v
  joined : ∀ path mine theirs, base.at? path = some (.table mine) →
    above.at? path = some (.table theirs) →
    ∃ entries, result.at? path = some (.table entries) ∧ Ascending entries ∧
      ∀ key, key ∈ entries.map Prod.fst ↔ key ∈ mine.map Prod.fst ∨ key ∈ theirs.map Prod.fst
  kept : ∀ path, above.at? path = none →
    (∀ before v, before <+: path → above.at? before = some v → v.isTable = true) →
    result.at? path = base.at? path

theorem laidOver_overlayTable {base above : Sorted (Toml α)} (hbase : Ordered (.table base))
    (habove : Ordered (.table above)) :
    LaidOver (.table base) (.table above) (.table (overlayTable base above)) ∧
      overlayTable (overlayTable base above) above = overlayTable base above := by
  have hsettled {path : List String} {v : Toml α} (hv : (Toml.table above).at? path = some v) :
      (Toml.table (overlayTable base above)).at? path =
        some (overlay ((Toml.table base).at? path) v) := by
    rw [at?_overlayTable habove, settles_of_at? hv, if_pos rfl, hv, Option.map_some]
  refine ⟨⟨fun path v hv hplain => ?_, fun path mine theirs hmine htheirs => ?_,
    fun path hnone hbefore => ?_⟩, ?_⟩
  · rw [hsettled hv]
    rcases hplain with hplain | hbelow
    · rw [overlay_of_plain hplain]
    · rw [overlay_of_noTable hbelow]
  · have htheirsOrdered : Ascending theirs := (habove.at? htheirs).ascending
    refine ⟨overlayTable mine theirs, ?_, (ordered_overlayTable (hbase.at? hmine)
      (habove.at? htheirs)).ascending, fun key => ?_⟩
    · rw [hsettled htheirs, hmine, overlay]
    · simp only [Sorted.mem_keys_iff, get?_overlayTable htheirsOrdered]
      cases Sorted.get? key theirs <;> simp
  · rw [at?_overlayTable habove, if_neg]
    intro hsettles
    rcases settles_iff.mp hsettles with hsome | ⟨before, w, hprefix, hw, hplain⟩
    · rw [hnone] at hsome
      cases hsome
    · rw [hbefore before w hprefix hw] at hplain
      cases hplain
  · have hagain := overlay_overlay habove (o := some (.table base)) fun b hb => by
      cases hb
      exact hbase
    rw [overlay, overlay] at hagain
    exact Toml.table.inj hagain

/-- At `a` a table meets a number, at `m` another table, which keeps its other key. -/
theorem laidOver_overlayTable_meeting :
    let base : Sorted (Toml Float) :=
      [("a", .integer 1), ("m", .table [("x", .integer 1), ("y", .integer 2)])]
    let above : Sorted (Toml Float) :=
      [("a", .table [("b", .integer 3)]), ("m", .table [("x", .integer 4)])]
    let result : Sorted (Toml Float) :=
      [("a", .table [("b", .integer 3)]), ("m", .table [("x", .integer 4), ("y", .integer 2)])]
    Ordered (.table base) ∧ Ordered (.table above) ∧ overlayTable base above = result ∧
      LaidOver (.table base) (.table above) (.table result) ∧ overlayTable result above = result := by
  intro base above result
  have hinteger (n : Int) : Ordered (.integer n : Toml Float) := .plain rfl
  have hone (key : String) (n : Int) : Ordered (.table [(key, .integer n)] : Toml Float) :=
    .table (List.pairwise_singleton _ _) (by simpa using hinteger n)
  have hbase : Ordered (.table base) := by
    refine .table (by unfold Ascending; decide) ?_
    simp only [base, List.forall_mem_cons]
    refine ⟨hinteger 1, .table (by unfold Ascending; decide) ?_, fun _ he => nomatch he⟩
    simpa using ⟨hinteger 1, hinteger 2⟩
  have habove : Ordered (.table above) := by
    refine .table (by unfold Ascending; decide) ?_
    simpa [above] using ⟨hone "b" 3, hone "x" 4⟩
  have hresult : overlayTable base above = result := by
    simp only [base, above, result, overlayTable, overlay]
    rfl
  have hover := laidOver_overlayTable hbase habove
  rw [hresult] at hover
  exact ⟨hbase, habove, hresult, hover⟩

/-! ## Tables one after the other -/

def merged (tables : List (Sorted (Toml α))) : Sorted (Toml α) := tables.foldl overlayTable []

theorem merged_append (tables : List (Sorted (Toml α))) (t : Sorted (Toml α)) :
    merged (tables ++ [t]) = overlayTable (merged tables) t := by
  rw [merged, List.foldl_append]
  rfl

theorem ordered_merged {tables : List (Sorted (Toml α))}
    (h : ∀ t ∈ tables, Ordered (.table t)) : Ordered (.table (merged tables)) :=
  List.foldlRecOn (motive := fun m => Ordered (.table m)) tables overlayTable
    (.table Sorted.ascending_nil fun _ he => nomatch he)
    fun _ hm t ht => ordered_overlayTable hm (h t ht)

/-- What the last of some tables that settles a path has there. -/
def inForce? (path : List String) (tables : List (Sorted (Toml α))) : Option (Toml α) :=
  (tables.reverse.find? fun t => (Toml.table t).settles path).bind fun t => (Toml.table t).at? path

def SameOrTables (v w : Option (Toml α)) : Prop :=
  v = w ∨ ∃ mine theirs, v = some (.table mine) ∧ w = some (.table theirs)

theorem SameOrTables.plain_iff {v w : Option (Toml α)} (h : SameOrTables v w) {x : Toml α}
    (hx : x.isTable = false) : v = some x ↔ w = some x := by
  rcases h with rfl | ⟨mine, theirs, rfl, rfl⟩
  · rfl
  · constructor
    all_goals
      intro heq
      cases heq
      cases hx

theorem SameOrTables.table_iff {v w : Option (Toml α)} (h : SameOrTables v w) :
    (∃ entries, v = some (.table entries)) ↔ ∃ entries, w = some (.table entries) := by
  rcases h with rfl | ⟨mine, theirs, rfl, rfl⟩
  · rfl
  · exact ⟨fun _ => ⟨theirs, rfl⟩, fun _ => ⟨mine, rfl⟩⟩

theorem inForce?_append (path : List String) (tables : List (Sorted (Toml α)))
    (t : Sorted (Toml α)) : inForce? path (tables ++ [t]) =
      if (Toml.table t).settles path then (Toml.table t).at? path else inForce? path tables := by
  unfold inForce?
  rw [List.reverse_append, List.reverse_singleton, List.singleton_append, List.find?_cons]
  cases (Toml.table t).settles path <;> rfl

/-- What is at a path of tables that are laid over one another in turn is what the last one has
there that settles it, if that is no table. -/
theorem at?_merged {tables : List (Sorted (Toml α))} (h : ∀ t ∈ tables, Ordered (.table t))
    (key : String) (path : List String) :
    SameOrTables ((Toml.table (merged tables)).at? (key :: path))
      (inForce? (key :: path) tables) := by
  induction tables using List.reverseRecOn with
  | nil => exact .inl rfl
  | append_singleton tables t ih =>
    have ht : Ordered (.table t) := h t (by simp)
    have hbefore := ih fun u hu => h u (by simp [hu])
    rw [merged_append, at?_overlayTable ht, inForce?_append]
    split
    · cases hat : (Toml.table t).at? (key :: path) with
      | none => exact .inl rfl
      | some w =>
        rw [Option.map_some]
        cases htable : w.isTable with
        | false => exact .inl (congrArg some (overlay_of_plain htable _))
        | true =>
          obtain ⟨theirs, rfl⟩ := exists_table htable
          obtain ⟨mine, hmine⟩ := exists_table ((isTable_overlay _ _).trans htable)
          exact .inr ⟨mine, theirs, congrArg some hmine, rfl⟩
    · exact hbefore

end Partitura.Toml
