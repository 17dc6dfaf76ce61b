import Partitura.Proofs.Json.Record
import Partitura.Proofs.Toml.Tables
import Partitura.Toml.Reader

/-!
# Tables of documents in order

Whatever a document says, the table that it means is in order, and so is every table within it. A
table that still grows holds its entries as they came; they are put in order when it is finished.
So it is enough that the values put into it are in order, and those that are written in one piece
are no tables at all.
-/

namespace Partitura.Toml

open Sorted (Ascending)
open Json (bind_ok map_ok)

variable {α : Type}

def isTable : Toml α → Bool
  | .table _ => true
  | _ => false

/-- A value in which tables within tables are in order. No key leads into a list, so what stands
in a list does not matter. -/
inductive Ordered : Toml α → Prop where
  | plain {v : Toml α} : v.isTable = false → Ordered v
  | table {entries : Sorted (Toml α)} : Ascending entries → (∀ e ∈ entries, Ordered e.2) →
    Ordered (.table entries)

section Tables

variable {entries : Sorted (Toml α)}

theorem Ordered.ascending (h : Ordered (.table entries)) : Ascending entries := by
  cases h with
  | plain hplain => cases hplain
  | table hascending => exact hascending

theorem Ordered.inside (h : Ordered (.table entries)) : ∀ e ∈ entries, Ordered e.2 := by
  cases h with
  | plain hplain => cases hplain
  | table _ hinside => exact hinside

theorem Ordered.get? (h : Ordered (.table entries)) {key : String} {v : Toml α}
    (hv : Sorted.get? key entries = some v) : Ordered v :=
  h.inside (key, v) ((Sorted.get?_eq_some_iff h.ascending.distinct).mp hv)

theorem ordered_ofList {l : List (String × Toml α)} (h : ∀ e ∈ l, Ordered e.2) :
    Ordered (.table (Sorted.ofList l)) :=
  .table (Sorted.ascending_ofList l) (Sorted.forall_ofList h)

end Tables

/-! ## Tables that grow -/

/-- What stands in a table that grows is in order. A list of tables ends up as a list. -/
inductive Draft.Sound : Draft α → Prop where
  | value {v : Toml α} : Ordered v → Draft.Sound (.value v)
  | table {origin : Origin} {entries : Entries α} : (∀ e ∈ entries, Draft.Sound e.2) →
    Draft.Sound (.table origin entries)
  | tables (elements : List (Entries α)) : Draft.Sound (.tables elements)

def SoundEntries (entries : Entries α) : Prop := ∀ e ∈ entries, e.2.Sound

theorem soundEntries_nil : SoundEntries ([] : Entries α) := fun _ he => nomatch he

theorem Draft.Sound.entries {origin : Origin} {entries : Entries α}
    (h : Draft.Sound (.table origin entries)) : SoundEntries entries := by
  cases h with
  | table hentries => exact hentries

theorem ordered_finish {d : Draft α} (h : d.Sound) : Ordered (finish d) := by
  induction h with
  | value hv => exact hv
  | @table _ entries _ ih =>
    rw [finish, finishEntries_eq_map]
    refine ordered_ofList fun e he => ?_
    obtain ⟨d, hd, rfl⟩ := List.mem_map.mp he
    exact ih d hd
  | tables elements => exact .plain rfl

theorem ordered_finishEntries {entries : Entries α} (h : SoundEntries entries) :
    Ordered (.table (Sorted.ofList (finishEntries entries))) := by
  have hdraft : Draft.Sound (.table .head entries) := .table h
  exact ordered_finish hdraft

theorem SoundEntries.entry? {entries : Entries α} (h : SoundEntries entries) {key : String}
    {d : Draft α} (hd : entry? key entries = some d) : d.Sound := by
  induction entries with
  | nil => cases hd
  | cons e rest ih =>
    obtain ⟨k, c⟩ := e
    rw [Toml.entry?] at hd
    split at hd
    · exact Option.some.inj hd ▸ h (k, c) List.mem_cons_self
    · exact ih (fun e he => h e (List.mem_cons_of_mem _ he)) hd

theorem SoundEntries.putEntry {entries : Entries α} (h : SoundEntries entries) (key : String)
    {d : Draft α} (hd : d.Sound) : SoundEntries (putEntry key d entries) := by
  induction entries with
  | nil => exact fun e he => List.mem_singleton.mp he ▸ hd
  | cons e rest ih =>
    obtain ⟨k, c⟩ := e
    have hrest : SoundEntries rest := fun e he => h e (List.mem_cons_of_mem _ he)
    rw [Toml.putEntry]
    split
    · exact fun e he => (List.mem_cons.mp he).elim (· ▸ hd) (hrest e)
    · exact fun e he => (List.mem_cons.mp he).elim (· ▸ h (k, c) List.mem_cons_self) (ih hrest e)

theorem SoundEntries.putValue {holder : Option (List String)} {key : String} {v : Toml α}
    (hv : Ordered v) {path parts : List String} {entries entries' : Entries α}
    (h : SoundEntries entries) (hput : putValue holder key v path parts entries = .ok entries') :
    SoundEntries entries' := by
  induction parts generalizing path entries entries' with
  | nil =>
    rw [Toml.putValue] at hput
    split at hput
    · cases hput
      exact h.putEntry key (.value hv)
    · cases hput
  | cons part parts ih =>
    -- whatever stands at the part, what takes its place is sound
    have hplaced {x : Except Cause (Draft α)} (hx : ∀ d, x = .ok d → d.Sound)
        (hput : (x.bind fun d => .ok (Toml.putEntry part d entries)) = .ok entries') :
        SoundEntries entries' := by
      obtain ⟨d, hd, hput⟩ := bind_ok hput
      cases hput
      exact h.putEntry part (hx d hd)
    have hinside {origin : Origin} {within : Entries α} (hwithin : SoundEntries within)
        (d : Draft α) (hd : Draft.table origin <$> Toml.putValue holder key v (path ++ [part]) parts
          within = .ok d) : d.Sound := by
      obtain ⟨inside, hinside, rfl⟩ := map_ok hd
      exact .table (ih hwithin hinside)
    rw [Toml.putValue] at hput
    split at hput
    · exact hplaced (hinside soundEntries_nil) hput
    · next hentry => exact hplaced (hinside (h.entry? hentry).entries) hput
    · next hentry =>
      split at hput
      · cases hput
      · exact hplaced (hinside (h.entry? hentry).entries) hput
    · cases hput
    · split at hput
      · cases hput
      · refine hplaced (fun d hd => ?_) hput
        obtain ⟨elements, -, rfl⟩ := map_ok hd
        exact .tables elements
    · cases hput

theorem SoundEntries.within {ε : Type} {refuse : Cause → ε} {f : Entries α → Except ε (Entries α)}
    (hf : ∀ entries entries', SoundEntries entries → f entries = .ok entries' →
      SoundEntries entries') {path parts : List String} {entries entries' : Entries α}
    (h : SoundEntries entries) (hput : within refuse f path parts entries = .ok entries') :
    SoundEntries entries' := by
  induction parts generalizing path entries entries' with
  | nil => exact hf _ _ h hput
  | cons part parts ih =>
    rw [Toml.within] at hput
    split at hput
    · obtain ⟨d, hd, hput⟩ := bind_ok hput
      obtain ⟨inside, hinside, rfl⟩ := map_ok hd
      cases hput
      exact h.putEntry part (.table (ih soundEntries_nil hinside))
    · next hentry =>
      obtain ⟨d, hd, hput⟩ := bind_ok hput
      obtain ⟨inside, hinside, rfl⟩ := map_ok hd
      cases hput
      exact h.putEntry part (.table (ih (h.entry? hentry).entries hinside))
    · obtain ⟨d, hd, hput⟩ := bind_ok hput
      obtain ⟨elements, -, rfl⟩ := map_ok hd
      cases hput
      exact h.putEntry part (.tables elements)
    · cases hput

/-! ## What is written -/

/-- A value in which nothing that is written in one piece is a table. -/
inductive Written.Simple : Written α → Prop where
  | plain {v : Toml α} : v.isTable = false → Written.Simple (.plain v)
  | list (items : List (Written α)) : Written.Simple (.list items)
  | braces {pairs : List (List String × Written α)} : (∀ p ∈ pairs, Written.Simple p.2) →
    Written.Simple (.braces pairs)

theorem soundEntries_braces {pairs : List (List String × Written α)}
    (hpairs : ∀ p ∈ pairs, ∀ v, p.2.meaning = .ok v → Ordered v) {entries entries' : Entries α}
    (h : SoundEntries entries) (hbraces : bracesMeaning pairs entries = .ok entries') :
    SoundEntries entries' := by
  induction pairs generalizing entries with
  | nil =>
    cases hbraces
    exact h
  | cons p rest ih =>
    rw [bracesMeaning] at hbraces
    obtain ⟨v, hv, hbraces⟩ := bind_ok hbraces
    obtain ⟨next, hnext, hbraces⟩ := bind_ok hbraces
    have hordered := hpairs p List.mem_cons_self v hv
    exact ih (fun q hq => hpairs q (List.mem_cons_of_mem _ hq)) (h.putValue hordered hnext) hbraces

theorem ordered_meaning {w : Written α} (h : w.Simple) {v : Toml α} (hv : w.meaning = .ok v) :
    Ordered v := by
  induction h generalizing v with
  | plain hplain =>
    cases hv
    exact .plain hplain
  | list items =>
    rw [Written.meaning] at hv
    obtain ⟨vs, -, rfl⟩ := map_ok hv
    exact .plain rfl
  | braces _ ih =>
    rw [Written.meaning] at hv
    obtain ⟨entries, hentries, hv⟩ := bind_ok hv
    cases hv
    exact ordered_finishEntries (soundEntries_braces (fun p hp v => ih p hp) soundEntries_nil hentries)

/-! ## What is read -/

section Reading

variable [Scalar α]

theorem isTable_word {cs : List Char} {v : Toml α} (h : word? cs = some v) : v.isTable = false := by
  unfold word? at h
  split at h
  · cases h
    rfl
  · split at h
    · cases h
      rfl
    · split at h
      · cases h
        rfl
      · split at h
        · cases h
          rfl
        · obtain ⟨n, -, rfl⟩ := Option.map_eq_some_iff.mp h
          rfl

theorem isTable_simpleValue {cs rest : List Char} {v : Toml α}
    (h : simpleValue? cs = some (v, rest)) : v.isTable = false := by
  obtain ⟨w, hw, h⟩ := Option.bind_eq_some_iff.mp h
  dsimp only at h
  split at h
  · split at h
    · cases h
      rfl
    · cases h
      rfl
  · cases h
    exact isTable_word hw

def ReadsSimple (read : List Char → Option (Written α × List Char)) : Prop :=
  ∀ cs w rest, read cs = some (w, rest) → w.Simple

omit [Scalar α] in
theorem simple_pair {read : List Char → Option (Written α × List Char)} (hread : ReadsSimple read)
    {cs rest : List Char} {p : List String × Written α} (h : pair? read cs = some (p, rest)) :
    p.2.Simple := by
  obtain ⟨⟨key, afterKey⟩, -, h⟩ := Option.bind_eq_some_iff.mp h
  obtain ⟨afterEquals, -, h⟩ := Option.bind_eq_some_iff.mp h
  obtain ⟨⟨w, later⟩, hw, h⟩ := Option.bind_eq_some_iff.mp h
  cases h
  exact hread _ _ _ hw

omit [Scalar α] in
theorem simple_bracePairs {read : List Char → Option (Written α × List Char)}
    (hread : ReadsSimple read) {fuel : Nat} {cs rest : List Char}
    {pairs : List (List String × Written α)} (h : bracePairs? read fuel cs = some (pairs, rest)) :
    ∀ p ∈ pairs, p.2.Simple := by
  induction fuel generalizing cs pairs with
  | zero => cases h
  | succ fuel ih =>
    obtain ⟨⟨p, afterPair⟩, hp, h⟩ := Option.bind_eq_some_iff.mp h
    have hsimple := simple_pair hread hp
    dsimp only at h
    split at h
    · cases h
      exact fun q hq => List.mem_singleton.mp hq ▸ hsimple
    · obtain ⟨⟨later, afterLater⟩, hlater, h⟩ := Option.bind_eq_some_iff.mp h
      cases h
      exact List.forall_mem_cons.mpr ⟨hsimple, ih hlater⟩
    · cases h

theorem readsSimple_value (depth : Nat) :
    ReadsSimple (value? depth : List Char → Option (Written α × List Char)) := by
  induction depth with
  | zero =>
    intro cs w rest h
    cases cs with
    | nil => cases h
    | cons c cs =>
      rw [value?] at h
      split at h
      · obtain ⟨⟨s, later⟩, -, h⟩ := Option.bind_eq_some_iff.mp h
        cases h
        exact .plain rfl
      · split at h
        · cases h
        · split at h
          · cases h
          · obtain ⟨⟨v, later⟩, hv, h⟩ := Option.bind_eq_some_iff.mp h
            cases h
            exact .plain (isTable_simpleValue hv)
  | succ depth ih =>
    intro cs w rest h
    cases cs with
    | nil => cases h
    | cons c cs =>
      rw [value?] at h
      split at h
      · obtain ⟨⟨s, later⟩, -, h⟩ := Option.bind_eq_some_iff.mp h
        cases h
        exact .plain rfl
      · split at h
        · obtain ⟨⟨ws, later⟩, -, h⟩ := Option.bind_eq_some_iff.mp h
          cases h
          exact .list ws
        · split at h
          · split at h
            · cases h
              exact .braces fun _ hp => nomatch hp
            · obtain ⟨⟨pairs, later⟩, hpairs, h⟩ := Option.bind_eq_some_iff.mp h
              cases h
              exact .braces (simple_bracePairs ih hpairs)
          · obtain ⟨⟨v, later⟩, hv, h⟩ := Option.bind_eq_some_iff.mp h
            cases h
            exact .plain (isTable_simpleValue hv)

def Item.Simple (item : Item α) : Prop := ∀ key w, item = .pair key w → w.Simple

theorem simple_item {cs rest : List Char} {item : Item α} (h : item? cs = some (item, rest)) :
    item.Simple := by
  intro key w hpair
  subst hpair
  unfold item? at h
  split at h
  · obtain ⟨_, -, h⟩ := Option.bind_eq_some_iff.mp h
    obtain ⟨_, -, h⟩ := Option.bind_eq_some_iff.mp h
    obtain ⟨_, -, h⟩ := Option.bind_eq_some_iff.mp h
    obtain ⟨_, -, h⟩ := Option.bind_eq_some_iff.mp h
    cases h
  · obtain ⟨_, -, h⟩ := Option.bind_eq_some_iff.mp h
    obtain ⟨_, -, h⟩ := Option.bind_eq_some_iff.mp h
    obtain ⟨_, -, h⟩ := Option.bind_eq_some_iff.mp h
    cases h
  · obtain ⟨⟨p, afterPair⟩, hp, h⟩ := Option.bind_eq_some_iff.mp h
    obtain ⟨_, -, h⟩ := Option.bind_eq_some_iff.mp h
    cases h
    exact simple_pair (readsSimple_value maxDepth) hp

theorem simple_items (fuel : Nat) (cs : List Char) :
    ∀ p ∈ (items fuel cs : List (Placed α) × Option (List Char)).1, p.item.Simple := by
  induction fuel generalizing cs with
  | zero => exact fun _ hp => nomatch hp
  | succ fuel ih =>
    rw [items]
    split
    · exact fun _ hp => nomatch hp
    · split
      · exact ih _
      · split
        · next hitem => exact List.forall_mem_cons.mpr ⟨simple_item hitem, ih _⟩
        · exact fun _ hp => nomatch hp

end Reading

/-! ## Documents -/

def SimpleLines (lines : List (Line α)) : Prop := ∀ l ∈ lines, l.value.Simple

theorem simple_parts {found : List (Placed α)} (h : ∀ p ∈ found, p.item.Simple) :
    SimpleLines (parts found).1 ∧ ∀ p ∈ (parts found).2, SimpleLines p.lines := by
  induction found with
  | nil => exact ⟨List.forall_mem_nil _, List.forall_mem_nil _⟩
  | cons p found ih =>
    obtain ⟨hp, hfound⟩ := List.forall_mem_cons.mp h
    obtain ⟨hlines, hlater⟩ := ih hfound
    simp only [parts]
    cases hitem : p.item with
    | pair key w => exact ⟨List.forall_mem_cons.mpr ⟨hp key w hitem, hlines⟩, hlater⟩
    | head key => exact ⟨List.forall_mem_nil _, List.forall_mem_cons.mpr ⟨hlines, hlater⟩⟩
    | listHead key => exact ⟨List.forall_mem_nil _, List.forall_mem_cons.mpr ⟨hlines, hlater⟩⟩

theorem mapError_eq_ok {ε ε' β : Type} {f : ε → ε'} {x : Except ε β} {v : β} :
    x.mapError f = .ok v ↔ x = .ok v := by
  cases x <;> simp [Except.mapError]

theorem soundEntries_lines {holder : List String} {lines : List (Line α)} (hlines : SimpleLines lines)
    {entries entries' : Entries α} (h : SoundEntries entries)
    (hput : putLines holder lines entries = .ok entries') : SoundEntries entries' := by
  induction lines generalizing entries with
  | nil =>
    cases hput
    exact h
  | cons line rest ih =>
    obtain ⟨hline, hrest⟩ := List.forall_mem_cons.mp hlines
    obtain ⟨v, hv, hput⟩ := bind_ok hput
    obtain ⟨next, hnext, hput⟩ := bind_ok hput
    have hordered := ordered_meaning hline (mapError_eq_ok.mp hv)
    exact ih hrest (h.putValue hordered (mapError_eq_ok.mp hnext)) hput

theorem SoundEntries.putInto {p : Part α} (hp : SimpleLines p.lines) {entries entries' : Entries α}
    (h : SoundEntries entries) (hput : p.putInto entries = .ok entries') : SoundEntries entries' := by
  unfold Part.putInto at hput
  dsimp only at hput
  split at hput
  · obtain ⟨inside, -, hput⟩ := bind_ok hput
    cases hput
    exact h.putEntry _ (.tables _)
  · obtain ⟨inside, -, hput⟩ := bind_ok hput
    cases hput
    exact h.putEntry _ (.tables _)
  · obtain ⟨inside, hinside, hput⟩ := bind_ok hput
    cases hput
    exact h.putEntry _ (.table (soundEntries_lines hp soundEntries_nil hinside))
  · next hentry =>
    obtain ⟨inside, hinside, hput⟩ := bind_ok hput
    cases hput
    exact h.putEntry _ (.table (soundEntries_lines hp (h.entry? hentry).entries hinside))
  · cases hput

theorem soundEntries_parts {ps : List (Part α)} (hps : ∀ p ∈ ps, SimpleLines p.lines)
    {entries entries' : Entries α} (h : SoundEntries entries)
    (hput : ps.foldlM Part.put entries = .ok entries') : SoundEntries entries' := by
  induction ps generalizing entries with
  | nil =>
    cases hput
    exact h
  | cons p rest ih =>
    obtain ⟨hp, hrest⟩ := List.forall_mem_cons.mp hps
    rw [List.foldlM_cons] at hput
    obtain ⟨next, hnext, hput⟩ := bind_ok hput
    exact ih hrest (h.within (fun _ _ hbefore hafter => hbefore.putInto hp hafter) hnext) hput

theorem ordered_tableOf {found : List (Placed α)} (h : ∀ p ∈ found, p.item.Simple)
    {entries : Sorted (Toml α)} (htable : tableOf found = .ok entries) :
    Ordered (.table entries) := by
  obtain ⟨hlines, hlater⟩ := simple_parts h
  obtain ⟨first, hfirst, htable⟩ := bind_ok htable
  obtain ⟨all, hall, htable⟩ := bind_ok htable
  cases htable
  exact ordered_finishEntries
    (soundEntries_parts hlater (soundEntries_lines hlines soundEntries_nil hfirst) hall)

theorem ordered_parse [Scalar α] {text : String} {entries : Sorted (Toml α)}
    (h : Toml.parse text = .ok entries) : Ordered (.table entries) := by
  unfold Toml.parse at h
  dsimp only at h
  split at h
  · next htable _ =>
    cases h
    exact ordered_tableOf (simple_items _ _) htable
  · cases h
  · cases h

end Partitura.Toml
