import Mathlib.Data.List.Forall2
import Partitura.Proofs.Sorted
import Partitura.Toml.Draft

/-!
# Tables of TOML under heads

Heads with pairs of plain values under them make tables of those pairs, whatever texts the items
stand in. Under a head of two parts the pairs go into a table within the one that the first part
names. No key may stand twice in a table.
-/

namespace Partitura.Toml

open Sorted (Distinct)

variable {α : Type}

abbrev Heading (α : Type) := String × List (String × Toml α)

def headItems (key : List String) (pairs : List (String × Toml α)) : List (Item α) :=
  .head key :: pairs.map fun p => .pair [p.1] (.plain p.2)

/-! ## Items in parts -/

def LinesOf (lines : List (Line α)) (pairs : List (String × Toml α)) : Prop :=
  lines.map (fun l => (l.key, l.value)) = pairs.map fun p => ([p.1], .plain p.2)

/-- A part that holds a head and pairs with plain values under it. -/
structure Part.Under (key : List String) (pairs : List (String × Toml α)) (p : Part α) : Prop where
  isElement : p.isElement = false
  key : p.key = key
  lines : LinesOf p.lines pairs

theorem parts_pairs {found later : List (Placed α)} {pairs : List (String × Toml α)}
    {ps : List (Part α)}
    (h : found.map Placed.item = pairs.map fun p => .pair [p.1] (.plain p.2))
    (hlater : parts later = ([], ps)) :
    ∃ lines, parts (found ++ later) = (lines, ps) ∧ LinesOf lines pairs := by
  induction pairs generalizing found with
  | nil =>
    obtain rfl := List.map_eq_nil_iff.mp h
    exact ⟨[], hlater, rfl⟩
  | cons pair pairs ih =>
    obtain ⟨p, found, rfl, hp, hfound⟩ := List.map_eq_cons_iff.mp h
    obtain ⟨lines, hlines, hpairs⟩ := ih hfound
    refine ⟨⟨p.text, [pair.1], .plain pair.2⟩ :: lines, ?_, congrArg (_ :: ·) hpairs⟩
    simp only [List.cons_append, parts, hlines, hp]

theorem parts_headItems {found later : List (Placed α)} {key : List String}
    {pairs : List (String × Toml α)} {ps : List (Part α)}
    (h : found.map Placed.item = headItems key pairs) (hlater : parts later = ([], ps)) :
    ∃ p : Part α, parts (found ++ later) = ([], p :: ps) ∧ p.Under key pairs := by
  obtain ⟨p, found, rfl, hp, hfound⟩ := List.map_eq_cons_iff.mp h
  obtain ⟨lines, hlines, hpairs⟩ := parts_pairs hfound hlater
  refine ⟨⟨p.text, false, key, lines⟩, ?_, rfl, rfl, hpairs⟩
  simp only [List.cons_append, parts, hlines, hp]

theorem parts_headings (keyOf : String → List String) {headings : List (Heading α)}
    {found later : List (Placed α)} {ps : List (Part α)}
    (h : found.map Placed.item = headings.flatMap fun s => headItems (keyOf s.1) s.2)
    (hlater : parts later = ([], ps)) :
    ∃ qs : List (Part α), parts (found ++ later) = ([], qs ++ ps) ∧
      List.Forall₂ (fun q s => q.Under (keyOf s.1) s.2) qs headings := by
  induction headings generalizing found with
  | nil =>
    obtain rfl := List.map_eq_nil_iff.mp h
    exact ⟨[], hlater, .nil⟩
  | cons s headings ih =>
    obtain ⟨first, rest, rfl, hfirst, hrest⟩ := List.map_eq_append_iff.mp h
    obtain ⟨qs, hqs, hunder⟩ := ih hrest
    obtain ⟨q, hq, hqunder⟩ := parts_headItems hfirst hqs
    refine ⟨q :: qs, ?_, .cons hqunder hunder⟩
    rw [List.append_assoc]
    exact hq

/-! ## Entries -/

theorem entry?_append {key : String} {entries : Entries α} (h : ∀ e ∈ entries, e.1 ≠ key)
    (later : Entries α) : entry? key (entries ++ later) = entry? key later := by
  induction entries with
  | nil => rfl
  | cons e entries ih =>
    obtain ⟨k, d⟩ := e
    rw [List.cons_append, entry?, if_neg (h (k, d) List.mem_cons_self)]
    exact ih fun e he => h e (List.mem_cons_of_mem _ he)

theorem putEntry_append {key : String} {entries : Entries α} (h : ∀ e ∈ entries, e.1 ≠ key)
    (d : Draft α) (later : Entries α) :
    putEntry key d (entries ++ later) = entries ++ putEntry key d later := by
  induction entries with
  | nil => rfl
  | cons e entries ih =>
    obtain ⟨k, c⟩ := e
    rw [List.cons_append, putEntry, if_neg (h (k, c) List.mem_cons_self),
      ih fun e he => h e (List.mem_cons_of_mem _ he)]
    rfl

section New

variable {key : String} {d : Draft α} {entries later : Entries α}

theorem ne_of_distinct (h : Distinct (entries ++ (key, d) :: later)) :
    ∀ e ∈ entries, e.1 ≠ key :=
  fun e he => (List.pairwise_append.mp h).2.2 e he _ List.mem_cons_self

theorem entry?_new (h : Distinct (entries ++ (key, d) :: later)) : entry? key entries = none := by
  have hentry := entry?_append (ne_of_distinct h) []
  rwa [List.append_nil] at hentry

theorem putEntry_new (h : Distinct (entries ++ (key, d) :: later)) :
    putEntry key d entries = entries ++ [(key, d)] := by
  have hput := putEntry_append (ne_of_distinct h) d []
  rwa [List.append_nil] at hput

end New

/-! ## Pairs and heads put into tables -/

def pairEntries (pairs : List (String × Toml α)) : Entries α := pairs.map fun p => (p.1, .value p.2)

def headingEntries (headings : List (Heading α)) : Entries α :=
  headings.map fun s => (s.1, .table .head (pairEntries s.2))

theorem putLines_pairs {holder : List String} {lines : List (Line α)}
    {pairs : List (String × Toml α)} {entries : Entries α} (hlines : LinesOf lines pairs)
    (h : Distinct (entries ++ pairEntries pairs)) :
    putLines holder lines entries = .ok (entries ++ pairEntries pairs) := by
  induction pairs generalizing lines entries with
  | nil =>
    obtain rfl := List.map_eq_nil_iff.mp hlines
    simp [putLines, pairEntries]
  | cons pair pairs ih =>
    obtain ⟨line, lines, rfl, hline, hrest⟩ := List.map_eq_cons_iff.mp hlines
    obtain ⟨hkey, hvalue⟩ := Prod.mk.inj hline
    have hput : putPair (some holder) [pair.1] pair.2 entries =
        .ok (entries ++ [(pair.1, .value pair.2)]) := by
      simp only [putPair, List.dropLast_singleton, putValue, List.getLastD_cons, List.getLastD_nil,
        entry?_new h, putEntry_new h]
    have hsplit : entries ++ pairEntries (pair :: pairs) =
        (entries ++ [(pair.1, .value pair.2)]) ++ pairEntries pairs := by simp [pairEntries]
    rw [hsplit] at h ⊢
    rw [← ih hrest h]
    simp only [putLines, hkey, hvalue, Written.meaning]
    show ((putPair (some holder) [pair.1] pair.2 entries).mapError _ >>= _) = _
    rw [hput]
    rfl

theorem Part.Under.putInto {p : Part α} {key : List String} {pairs : List (String × Toml α)}
    (hp : p.Under key pairs) (hpairs : Distinct pairs) {entries later : Entries α}
    (h : Distinct (entries ++ (key.getLastD "", .table .head (pairEntries pairs)) :: later)) :
    p.putInto entries =
      .ok (entries ++ [(key.getLastD "", .table .head (pairEntries pairs))]) := by
  have hlines : putLines p.key p.lines [] = .ok (pairEntries pairs) :=
    putLines_pairs hp.lines (List.pairwise_map.mpr hpairs)
  unfold Part.putInto
  simp only [hp.isElement, hp.key] at hlines ⊢
  rw [entry?_new h, hlines, ← putEntry_new h]
  rfl

theorem put_headings {ps : List (Part α)} {headings : List (Heading α)} {entries : Entries α}
    (hps : List.Forall₂ (fun p s => p.Under [s.1] s.2) ps headings)
    (hpairs : ∀ s ∈ headings, Distinct s.2) (h : Distinct (entries ++ headingEntries headings)) :
    ps.foldlM Part.put entries = .ok (entries ++ headingEntries headings) := by
  induction hps generalizing entries with
  | nil =>
    rw [headingEntries, List.map_nil, List.append_nil]
    rfl
  | @cons p s ps headings hp hps ih =>
    have hput : Part.put entries p = .ok (entries ++ headingEntries [s]) := by
      unfold Part.put
      rw [hp.key]
      exact hp.putInto (hpairs s List.mem_cons_self) h
    have hsplit : entries ++ headingEntries (s :: headings) =
        (entries ++ headingEntries [s]) ++ headingEntries headings := by simp [headingEntries]
    rw [hsplit] at h ⊢
    rw [List.foldlM_cons, hput]
    exact ih (fun t ht => hpairs t (List.mem_cons_of_mem _ ht)) h

theorem put_innerHeadings {ps : List (Part α)} {outer : String} {headings : List (Heading α)}
    {before inside : Entries α}
    (hps : List.Forall₂ (fun p s => p.Under [outer, s.1] s.2) ps headings)
    (hpairs : ∀ s ∈ headings, Distinct s.2) (hbefore : ∀ e ∈ before, e.1 ≠ outer)
    (h : Distinct (inside ++ headingEntries headings)) :
    ps.foldlM Part.put (before ++ [(outer, .table .head inside)]) =
      .ok (before ++ [(outer, .table .head (inside ++ headingEntries headings))]) := by
  induction hps generalizing inside with
  | nil =>
    rw [headingEntries, List.map_nil, List.append_nil]
    rfl
  | @cons p s ps headings hp hps ih =>
    have hput : Part.put (before ++ [(outer, .table .head inside)]) p =
        .ok (before ++ [(outer, .table .head (inside ++ headingEntries [s]))]) := by
      -- the outer table is the last entry, so it is changed where it stands
      have hinto := hp.putInto (hpairs s List.mem_cons_self) h
      unfold Part.put
      rw [hp.key]
      simp only [List.dropLast, within, entry?_append hbefore, entry?, if_true,
        putEntry_append hbefore, putEntry, hinto]
      rfl
    have hsplit : inside ++ headingEntries (s :: headings) =
        (inside ++ headingEntries [s]) ++ headingEntries headings := by simp [headingEntries]
    rw [hsplit] at h ⊢
    rw [List.foldlM_cons, hput]
    exact ih (fun t ht => hpairs t (List.mem_cons_of_mem _ ht)) h

/-! ## The table of a document -/

def tablesOf (headings : List (Heading α)) : List (String × Toml α) :=
  headings.map fun s => (s.1, .table (Sorted.ofList s.2))

theorem finishEntries_eq_map (entries : Entries α) :
    finishEntries entries = entries.map fun e => (e.1, finish e.2) := by
  induction entries with
  | nil => rfl
  | cons e entries ih => exact congrArg (_ :: ·) ih

theorem finishEntries_append (entries later : Entries α) :
    finishEntries (entries ++ later) = finishEntries entries ++ finishEntries later := by
  simp only [finishEntries_eq_map, List.map_append]

theorem finishEntries_pairEntries (pairs : List (String × Toml α)) :
    finishEntries (pairEntries pairs) = pairs := by
  simp [finishEntries_eq_map, pairEntries, Function.comp_def, finish]

theorem finishEntries_headingEntries (headings : List (Heading α)) :
    finishEntries (headingEntries headings) = tablesOf headings := by
  rw [finishEntries_eq_map, headingEntries, List.map_map]
  refine List.map_congr_left fun s _ => ?_
  simp only [Function.comp_apply, finish, finishEntries_pairEntries]

theorem tableOf_headings {found : List (Placed α)} {headings inner : List (Heading α)}
    {last : Heading α}
    (h : found.map Placed.item =
      (headings ++ [last]).flatMap (fun s => headItems [s.1] s.2) ++
        inner.flatMap fun s => headItems [last.1, s.1] s.2)
    (hkeys : Distinct (headings ++ [last])) (hpairs : ∀ s ∈ headings ++ [last], Distinct s.2)
    (hinner : Distinct (last.2 ++ tablesOf inner)) (hinnerPairs : ∀ s ∈ inner, Distinct s.2) :
    tableOf found = .ok (Sorted.ofList (tablesOf headings ++
      [(last.1, .table (Sorted.ofList (last.2 ++ tablesOf inner)))])) := by
  -- from the end of the document to its start, as parts are cut
  obtain ⟨first, rest, rfl, hfirst, hrest⟩ := List.map_eq_append_iff.mp h
  have hend : parts ([] : List (Placed α)) = ([], []) := rfl
  obtain ⟨qs, hqs, hqsUnder⟩ := parts_headings (fun k => [last.1, k]) hrest hend
  rw [List.append_nil, List.append_nil] at hqs
  obtain ⟨ps, hps, hpsUnder⟩ := parts_headings (fun k => [k]) hfirst hqs
  have hkeys : Distinct (headingEntries (headings ++ [last])) := List.pairwise_map.mpr hkeys
  have hlast : headingEntries (headings ++ [last]) =
      headingEntries headings ++ [(last.1, .table .head (pairEntries last.2))] := by
    simp [headingEntries]
  have hinner : Distinct (pairEntries last.2 ++ headingEntries inner) := by
    rw [Sorted.distinct_iff_nodup] at hinner ⊢
    simpa [pairEntries, headingEntries, tablesOf, Function.comp_def] using hinner
  have houter : ps.foldlM Part.put [] = .ok ([] ++ headingEntries (headings ++ [last])) :=
    put_headings hpsUnder hpairs hkeys
  have hall := put_innerHeadings hqsUnder hinnerPairs (ne_of_distinct (hlast ▸ hkeys)) hinner
  rw [List.nil_append, hlast] at houter
  simp only [tableOf, hps, putLines]
  show (((ps ++ qs).foldlM Part.put []) >>= _) = _
  rw [List.foldlM_append, houter]
  show ((qs.foldlM Part.put _) >>= _) = _
  rw [hall]
  show Except.ok (Sorted.ofList (finishEntries _)) = _
  rw [finishEntries_append, finishEntries_headingEntries]
  simp only [finishEntries, finish, finishEntries_append, finishEntries_pairEntries,
    finishEntries_headingEntries]

/-! ## Tables laid over one another -/

theorem overlayTable_eq (base : Sorted (Toml α)) (above : List (String × Toml α)) :
    overlayTable base above = Sorted.overlayWith overlay base above := by
  induction above generalizing base with
  | nil => rw [overlayTable, Sorted.overlayWith, List.foldl_nil]
  | cons e above ih =>
    rw [overlayTable, ih, Sorted.overlayWith, Sorted.overlayWith, List.foldl_cons]

theorem overlay_none (v : Toml α) : overlay none v = v := by
  cases v <;> simp only [overlay]

theorem overlayTable_nil {above : Sorted (Toml α)} (h : Sorted.Ascending above) :
    overlayTable [] above = above := by
  rw [overlayTable_eq]
  refine Sorted.eq_of_get? (Sorted.ascending_overlayWith Sorted.ascending_nil above) h fun key => ?_
  rw [Sorted.get?_overlayWith h.distinct, Sorted.get?_nil]
  cases Sorted.get? key above with
  | none => rfl
  | some v => exact congrArg some (overlay_none v)

/-! ## Values in JSON -/

theorem entriesToJson_eq_map (entries : List (String × Toml α)) :
    entriesToJson entries = entries.map fun e => (e.1, e.2.toJson) := by
  induction entries with
  | nil => rfl
  | cons e entries ih => rw [entriesToJson, ih, List.map_cons]

theorem itemsToJson_eq_map (items : List (Toml α)) : itemsToJson items = items.map toJson := by
  induction items with
  | nil => rfl
  | cons v items ih => rw [itemsToJson, ih, List.map_cons]

theorem get?_entriesToJson (key : String) (entries : Sorted (Toml α)) :
    Sorted.get? key (entriesToJson entries) = (Sorted.get? key entries).map toJson := by
  rw [entriesToJson_eq_map, Sorted.get?, Sorted.get?, List.find?_map, Option.map_map,
    Option.map_map]
  rfl

theorem distinct_entriesToJson {entries : Sorted (Toml α)} (h : Sorted.Ascending entries) :
    Distinct (entriesToJson entries) := by
  rw [entriesToJson_eq_map]
  exact List.pairwise_map.mpr h.distinct

end Partitura.Toml
