import Partitura.Proofs.Tune.Overlaps
import Partitura.Proofs.Tune.Reading

/-!
# Runs of notes

A voice is written bar after bar, so that a slot which goes over a bar line is written once
in each bar that it overlaps. Read slot after slot, these notes are in the same order: of
two slots in turn, the later one is never in an earlier bar. The notes of a voice therefore
split into one run for each slot. Its notes are tied, all but the last one, and only the
first one has remarks and ornaments.
-/

namespace Partitura

/-! ## Two ways through a table -/

section Lists

variable {β γ δ : Type}

theorem map_filter_append_flatMap {picks : γ → Bool} {f : γ → δ} {g : γ → List δ} {ys : List γ}
    (h : ys.Pairwise fun y later => picks later = true → g y = []) :
    (ys.filter picks).map f ++ ys.flatMap g =
      ys.flatMap fun y => ([y].filter picks).map f ++ g y := by
  induction ys with
  | nil => rfl
  | cons y rest ih =>
    obtain ⟨hy, hrest⟩ := List.pairwise_cons.mp h
    have hswap : (rest.filter picks).map f ++ g y = g y ++ (rest.filter picks).map f := by
      cases hfilter : rest.filter picks with
      | nil => simp
      | cons later _ =>
        obtain ⟨hlater, hpicks⟩ := List.mem_filter.mp
          (show later ∈ rest.filter picks by simp [hfilter])
        simp [hy later hlater hpicks]
    have hcons : (y :: rest).filter picks = [y].filter picks ++ rest.filter picks :=
      List.filter_append [y] rest
    rw [hcons, List.map_append, List.flatMap_cons, List.flatMap_cons, ← ih hrest,
      List.append_assoc, List.append_assoc, ← List.append_assoc _ (g y), hswap,
      List.append_assoc]

/-- Two lists are gone through in the same order, whichever of them comes first, if no two
entries are related crosswise to two others. -/
theorem flatMap_related_comm {R : β → γ → Bool} {xs : List β} {ys : List γ}
    (h : ys.Pairwise fun y later => xs.Pairwise fun x next =>
      ¬(R next y = true ∧ R x later = true)) :
    (xs.flatMap fun x => (ys.filter (R x)).map fun y => (y, x)) =
      ys.flatMap fun y => (xs.filter (R · y)).map fun x => (y, x) := by
  induction xs with
  | nil => exact (List.flatMap_eq_nil_iff.mpr fun _ _ => rfl).symm
  | cons x rest ih =>
    have hrest := ih (h.imp fun hxs => (List.pairwise_cons.mp hxs).2)
    have hfirst : ys.Pairwise fun y later => R x later = true →
        (rest.filter (R · y)).map (fun x => (y, x)) = [] := by
      refine h.imp fun {y later} hxs hlater => ?_
      rw [List.map_eq_nil_iff, List.filter_eq_nil_iff]
      exact fun next hnext hy => (List.pairwise_cons.mp hxs).1 next hnext ⟨hy, hlater⟩
    rw [List.flatMap_cons, hrest, map_filter_append_flatMap hfirst]
    refine List.flatMap_congr fun y _ => ?_
    cases hR : R x y <;> simp [hR]

theorem exists_append_of_forall₂ {R : β → γ → Prop} {xs ys : List β} {zs : List γ}
    (h : List.Forall₂ R (xs ++ ys) zs) :
    ∃ us vs, zs = us ++ vs ∧ List.Forall₂ R xs us ∧ List.Forall₂ R ys vs := by
  induction xs generalizing zs with
  | nil => exact ⟨[], zs, rfl, .nil, h⟩
  | cons x rest ih =>
    obtain ⟨z, zs, hz, hzs, rfl⟩ := List.forall₂_cons_left_iff.mp h
    obtain ⟨us, vs, rfl, hus, hvs⟩ := ih hzs
    exact ⟨z :: us, vs, rfl, .cons hz hus, hvs⟩

theorem exists_runs {R : β → γ → Prop} {parts : δ → List β} {items : List δ} {zs : List γ}
    (h : List.Forall₂ R (items.flatMap parts) zs) :
    ∃ runs, zs = runs.flatten ∧
      List.Forall₂ (fun item run => List.Forall₂ R (parts item) run) items runs := by
  induction items generalizing zs with
  | nil =>
    obtain rfl : zs = [] := List.forall₂_nil_left_iff.mp h
    exact ⟨[], rfl, .nil⟩
  | cons item rest ih =>
    obtain ⟨run, later, rfl, hrun, hlater⟩ := exists_append_of_forall₂ h
    obtain ⟨runs, rfl, hruns⟩ := ih hlater
    exact ⟨run :: runs, rfl, .cons hrun hruns⟩

theorem map_eq_map_of_forall₂ {f : β → δ} {g : γ → δ} {xs : List β} {ys : List γ}
    (h : List.Forall₂ (fun x y => g y = f x) xs ys) : ys.map g = xs.map f := by
  induction h with
  | nil => rfl
  | cons hxy _ ih => rw [List.map_cons, List.map_cons, hxy, ih]

end Lists

/-! ## Notes in bars -/

def Element.isBarEnd : Element → Bool
  | .barLine => true
  | .finalBar => true
  | _ => false

def notesInBars : Nat → List Element → List (Nat × Token)
  | _, [] => []
  | n, .note token :: rest => (n, token) :: notesInBars n rest
  | n, e :: rest => notesInBars (if e.isBarEnd then n + 1 else n) rest

theorem notesInBars_append (n : Nat) (xs ys : List Element) :
    notesInBars n (xs ++ ys) =
      notesInBars n xs ++ notesInBars (n + (xs.filter Element.isBarEnd).length) ys := by
  induction xs generalizing n with
  | nil => rfl
  | cons e rest ih =>
    cases e <;>
      simp [notesInBars, Element.isBarEnd, List.filter_cons, ih, Nat.add_assoc, Nat.add_comm 1]

theorem notesInBars_fields (n : Nat) (fields : List InlineField) :
    notesInBars n (fields.map Element.field) = [] ∧
      (fields.map Element.field).filter Element.isBarEnd = [] := by
  induction fields with
  | nil => exact ⟨rfl, rfl⟩
  | cons f rest ih => exact ih

section Writing

variable {α : Type} [Scalar α]

structure IsWritten (bar : Bar α) (n : Nat) (slot : Slot α) (place : α) (note : Nat × Token) :
    Prop where
  inBar : note.1 = n
  tie : note.2.tie = decide (bar.stop + nearness < slot.stop)
  length : note.2.length = Length.ofQuarters (Scalar.minOf slot.stop bar.stop - place)
  bare : ¬bar.start - nearness ≤ slot.start → note.2.remarks = [] ∧ note.2.ornaments = []

theorem isWritten_slotToken (bar : Bar α) (n : Nat) (slot : Slot α) (place : α)
    (s : VoiceState α) : IsWritten bar n slot place (n, (slotToken bar place slot s).1) := by
  unfold slotToken
  dsimp only
  split
  · next hopens => exact ⟨rfl, rfl, rfl, fun hlater => absurd hopens hlater⟩
  · exact ⟨rfl, rfl, rfl, fun _ => ⟨rfl, rfl⟩⟩

theorem notesInBars_takeTempos (n : Nat) (place : α) (s : VoiceState α) :
    notesInBars n (takeTempos place s).1 = [] ∧
      (takeTempos place s).1.filter Element.isBarEnd = [] := by
  have htempos : (takeTempos place s).1 = ((s.cues.tempos.takeWhile (isDue place)).map fun t =>
      InlineField.tempo t.2).map Element.field := by
    rw [List.map_map]
    rfl
  rw [htempos]
  exact notesInBars_fields n _

omit [Scalar α] in
theorem notesInBars_barFields (n : Nat) (bar : Bar α) :
    notesInBars n (barFields bar) = [] ∧ (barFields bar).filter Element.isBarEnd = [] := by
  have hfields : barFields bar = ((bar.meter.map InlineField.meter).toList ++
      (bar.key.map InlineField.key).toList).map Element.field := by
    unfold barFields
    cases bar.meter <;> cases bar.key <;> rfl
  rw [hfields]
  exact notesInBars_fields n _

theorem notesInBars_writeStretches (bar : Bar α) (n : Nat) (sts : List (Stretch α))
    (s : VoiceState α) :
    List.Forall₂ (fun st note => ∃ slot, st.slot? = some slot ∧ IsWritten bar n slot st.start note)
        (sts.filter Stretch.sounds) (notesInBars n (writeStretches bar sts s).1) ∧
      (writeStretches bar sts s).1.filter Element.isBarEnd = [] := by
  induction sts generalizing s with
  | nil => exact ⟨.nil, rfl⟩
  | cons st rest ih =>
    obtain ⟨hnone, hends⟩ := notesInBars_takeTempos n st.start s
    obtain ⟨hnotes, hnoends⟩ := ih (writeStretch bar st s).2
    cases hslot : st.slot? with
    | none =>
      have hrest : (st :: rest).filter Stretch.sounds = rest.filter Stretch.sounds :=
        List.filter_cons_of_neg (by simp [Stretch.sounds, hslot])
      simp only [writeStretch, hslot] at hnotes hnoends
      simp only [writeStretches, writeStretch, hslot, hrest, List.append_assoc,
        List.filter_append, notesInBars_append, hnone, hends, List.length_nil, hnoends]
      exact ⟨hnotes, rfl⟩
    | some slot =>
      have hsounds : (st :: rest).filter Stretch.sounds = st :: rest.filter Stretch.sounds :=
        List.filter_cons_of_pos (by simp [Stretch.sounds, hslot])
      simp only [writeStretch, hslot] at hnotes hnoends
      simp only [writeStretches, writeStretch, hslot, hsounds, List.append_assoc,
        List.filter_append, notesInBars_append, hnone, hends, List.length_nil, hnoends]
      exact ⟨.cons ⟨slot, hslot, isWritten_slotToken bar n slot st.start _⟩ hnotes, rfl⟩

theorem notesInBars_layBar (bar : Bar α) (n : Nat) (s : VoiceState α) :
    List.Forall₂ (fun st note => ∃ slot, st.slot? = some slot ∧ IsWritten bar n slot st.start note)
        ((stretchesOf bar s.slots).1.filter Stretch.sounds) (notesInBars n (layBar bar s).1) ∧
      (layBar bar s).1.filter Element.isBarEnd = [] := by
  obtain ⟨hnone, hends⟩ := notesInBars_barFields n bar
  obtain ⟨hnotes, hnoends⟩ :=
    notesInBars_writeStretches bar n (stretchesOf bar s.slots).1 (s.enter bar)
  rw [layBar_eq]
  simp only [notesInBars_append, List.filter_append, hnone, hends, hnoends, List.length_nil]
  exact ⟨hnotes, rfl⟩

theorem notesInBars_barEnd (n barsPerLine number : Nat) (isLast : Bool) :
    notesInBars n (barEnd barsPerLine number isLast) = [] ∧
      (barEnd barsPerLine number isLast).filter Element.isBarEnd =
        [if isLast then .finalBar else .barLine] := by
  cases isLast with
  | true => exact ⟨rfl, rfl⟩
  | false =>
    unfold barEnd
    rw [if_neg Bool.false_ne_true]
    split <;> exact ⟨rfl, rfl⟩

theorem barEnds_layBars (barsPerLine number : Nat) {bars : List (Bar α)} (hbars : bars ≠ [])
    (s : VoiceState α) :
    (layBars barsPerLine number bars s).1.filter Element.isBarEnd =
      List.replicate (bars.length - 1) .barLine ++ [.finalBar] := by
  induction bars generalizing number s with
  | nil => exact absurd rfl hbars
  | cons bar rest ih =>
    simp only [layBars, List.filter_append, (notesInBars_layBar bar 0 s).2,
      (notesInBars_barEnd 0 barsPerLine number rest.isEmpty).2, List.nil_append]
    cases rest with
    | nil => rfl
    | cons next rest =>
      rw [ih (number + 1) (List.cons_ne_nil _ _) (layBar bar s).2]
      rfl

end Writing

/-! ## The notes of a voice -/

/-- A note in a bar that shows the part of a slot in it. -/
structure Shows (visit : Slot Rat × Bar Rat × Nat) (note : Nat × Token) : Prop where
  inBar : note.1 = visit.2.2
  tie : note.2.tie = decide (visit.2.1.stop < visit.1.stop)
  length : note.2.length =
    Length.ofQuarters (min visit.1.stop visit.2.1.stop - max visit.1.start visit.2.1.start)
  bare : visit.1.start < visit.2.1.start → note.2.remarks = [] ∧ note.2.ornaments = []

section Voices

variable {places : List Rat} (hapart : Apart places)

include hapart

theorem IsWritten.shows {bar : Bar Rat} {n : Nat} {slot : Slot Rat} {note : Nat × Token}
    (h : IsWritten bar n slot (max slot.start bar.start) note)
    (hbar : bar.start ∈ places ∧ bar.stop ∈ places)
    (hslot : slot.start ∈ places ∧ slot.stop ∈ places) : Shows (slot, bar, n) note where
  inBar := h.inBar
  tie := by
    rw [h.tie, decide_eq_decide]
    exact hapart.add_nearness_lt hbar.2 hslot.2
  length := by rw [h.length, minOf_eq_min]
  bare := fun hlater => h.bare (mt (hapart.sub_nearness_le hbar.1 hslot.1).mp hlater.not_ge)

theorem shows_layBar {bar : Bar Rat} (n : Nat) {s : VoiceState Rat}
    (hbar : bar.start ∈ places ∧ bar.stop ∈ places) (hlt : bar.start < bar.stop)
    (hslots : ∀ slot ∈ s.slots, slot.start ∈ places ∧ slot.stop ∈ places)
    (hturn : InTurn s.slots) :
    List.Forall₂ Shows ((s.slots.filter (Slot.Overlaps · bar)).map fun slot => (slot, bar, n))
      (notesInBars n (layBar bar s).1) := by
  have hsounding : (stretchesOf bar s.slots).1.filter Stretch.sounds =
      piecesFrom bar.start bar s.slots :=
    sounding_eq hapart hbar.2 hslots hturn hbar.1 hlt (by omega)
  have hnotes := (notesInBars_layBar bar n s).1
  rw [hsounding, piecesFrom, List.forall₂_map_left_iff] at hnotes
  rw [List.forall₂_map_left_iff]
  have hmem : ∀ slot ∈ s.slots.filter (Slot.Overlaps · bar),
      slot.start ∈ places ∧ slot.stop ∈ places :=
    fun slot hslot => hslots slot (List.mem_filter.mp hslot).1
  refine ((List.forall₂_and_left _ _).mpr ⟨hmem, hnotes⟩).imp ?_
  rintro slot note ⟨hslot, _, ⟨⟩, hwritten⟩
  exact hwritten.shows hapart hbar hslot

theorem shows_layBars {lo hi : Rat} {bars : List (Bar Rat)} (htiles : Tiles lo bars hi)
    (barsPerLine number n : Nat) {s : VoiceState Rat}
    (hbars : ∀ bar ∈ bars, bar.start ∈ places ∧ bar.stop ∈ places)
    (hslots : ∀ slot ∈ s.slots, slot.start ∈ places ∧ slot.stop ∈ places)
    (hturn : InTurn s.slots) :
    List.Forall₂ Shows
      ((bars.zipIdx n).flatMap fun bar =>
        (s.slots.filter (Slot.Overlaps · bar.1)).map fun slot => (slot, bar))
      (notesInBars n (layBars barsPerLine number bars s).1) := by
  induction bars generalizing lo number n s with
  | nil => exact .nil
  | cons bar rest ih =>
    obtain ⟨-, hlt, hrest⟩ := htiles
    obtain ⟨hbar, hbars⟩ := List.forall_mem_cons.mp hbars
    -- The slots that are left are the last ones; the others have stopped before later bars.
    obtain ⟨gone, hsplit, hgone⟩ :=
      barStretches_gone (2 * s.slots.length + 2) bar bar.start s.slots
    have hleft : s.slots = gone ++ (layBar bar s).2.slots := by
      rw [slots_layBar]
      exact hsplit
    have hlater := ih hrest (number + 1) (n + 1) (s := (layBar bar s).2) hbars
      (fun slot hslot => hslots slot (by rw [hleft]; exact List.mem_append_right _ hslot))
      (by rw [hleft] at hturn; exact hturn.suffix)
    have hsame : ((rest.zipIdx (n + 1)).flatMap fun later =>
        ((layBar bar s).2.slots.filter (Slot.Overlaps · later.1)).map fun slot => (slot, later)) =
        (rest.zipIdx (n + 1)).flatMap fun later =>
          (s.slots.filter (Slot.Overlaps · later.1)).map fun slot => (slot, later) := by
      refine List.flatMap_congr fun later hlater => ?_
      have hstart := hrest.le_start later.1 (List.fst_mem_of_mem_zipIdx hlater)
      rw [hleft, filter_overlaps_of_gone hgone hstart]
    obtain ⟨hend, hends⟩ := notesInBars_barEnd n barsPerLine number rest.isEmpty
    rw [List.zipIdx_cons, List.flatMap_cons]
    simp only [layBars, notesInBars_append, List.filter_append, (notesInBars_layBar bar n s).2,
      hend, hends, List.nil_append, List.append_nil, List.length_nil, List.length_singleton,
      Nat.add_zero]
    rw [hsame] at hlater
    exact List.rel_append (shows_layBar hapart n hbar hlt hslots hturn) hlater

end Voices

/-! ## Runs -/

def Slot.barsIn (slot : Slot Rat) (bars : List (Bar Rat)) : List (Bar Rat × Nat) :=
  bars.zipIdx.filter fun bar => slot.Overlaps bar.1

/-- The notes of a slot: one in each bar that it overlaps, as long as its part in that bar. All
but the last one are tied, and only the first one can have remarks and ornaments. -/
structure RunOf (bars : List (Bar Rat)) (slot : Slot Rat) (run : List (Nat × Token)) : Prop where
  inBars : run.map Prod.fst = (slot.barsIn bars).map Prod.snd
  lengths : run.map (fun note => note.2.length) = (slot.barsIn bars).map fun bar =>
    Length.ofQuarters (min slot.stop bar.1.stop - max slot.start bar.1.start)
  ties : ∃ tied last, run = tied ++ [last] ∧ (∀ note ∈ tied, note.2.tie = true) ∧
    last.2.tie = false
  bare : ∀ note ∈ run.tail, note.2.remarks = [] ∧ note.2.ornaments = []

section Runs

variable {lo hi : Rat} {bars : List (Bar Rat)} {slot : Slot Rat} {run : List (Nat × Token)}

theorem Tiles.pairwise_zipIdx (h : Tiles lo bars hi) :
    bars.zipIdx.Pairwise fun a b => a.1.stop ≤ b.1.start := by
  have hpairwise := h.pairwise
  rw [← List.zipIdx_map_fst 0 bars] at hpairwise
  exact List.pairwise_map.mp hpairwise

theorem Tiles.ordered_barsIn (h : Tiles lo bars hi) (slot : Slot Rat) :
    (slot.barsIn bars).Pairwise fun a b => a.1.stop ≤ b.1.start := h.pairwise_zipIdx.filter _

theorem overlaps_of_mem_barsIn {bar : Bar Rat × Nat} (h : bar ∈ slot.barsIn bars) :
    slot.Overlaps bar.1 := of_decide_eq_true (List.mem_filter.mp h).2

theorem exists_stops (htiles : Tiles lo bars hi) (hlasts : slot.start < slot.stop)
    (hlo : lo ≤ slot.start) (hhi : slot.stop ≤ hi) :
    ∃ bar ∈ slot.barsIn bars, slot.stop ≤ bar.1.stop := by
  obtain ⟨bar, hbar, hbefore, hreaches⟩ := htiles.exists_loses (P := fun x => x < slot.stop)
    (hlo.trans_lt hlasts) hhi.not_gt
  have hreaches := not_lt.mp hreaches
  rw [← List.zipIdx_map_fst 0 bars] at hbar
  obtain ⟨numbered, hnumbered, rfl⟩ := List.mem_map.mp hbar
  exact ⟨numbered, List.mem_filter.mpr ⟨hnumbered,
    decide_eq_true ⟨hlasts.trans_le hreaches, hbefore⟩⟩, hreaches⟩

/-- Tied up to the bar in which the slot stops, and no further. -/
theorem ties_of_shows (htiles : Tiles lo bars hi)
    (hstops : ∃ bar ∈ slot.barsIn bars, slot.stop ≤ bar.1.stop)
    (h : List.Forall₂ (fun bar note => Shows (slot, bar) note) (slot.barsIn bars) run) :
    ∃ tied last, run = tied ++ [last] ∧ (∀ note ∈ tied, note.2.tie = true) ∧
      last.2.tie = false := by
  have hordered := htiles.ordered_barsIn slot
  have hoverlaps : ∀ bar ∈ slot.barsIn bars, slot.Overlaps bar.1 :=
    fun bar => overlaps_of_mem_barsIn
  generalize slot.barsIn bars = within at *
  obtain ⟨stopped, hmem, hreaches⟩ := hstops
  rcases List.eq_nil_or_concat' within with rfl | ⟨before, final, rfl⟩
  · cases hmem
  · obtain ⟨tied, lasts, rfl, htied, hlast⟩ := exists_append_of_forall₂ h
    obtain ⟨last, _, hshown, hnil, rfl⟩ := List.forall₂_cons_left_iff.mp hlast
    obtain rfl := List.forall₂_nil_left_iff.mp hnil
    have hfinal : slot.Overlaps final.1 := hoverlaps final (by simp)
    have hgoes : ∀ bar ∈ before, bar.1.stop < slot.stop := fun bar hbar =>
      ((List.pairwise_append.mp hordered).2.2 bar hbar final (by simp)).trans_lt hfinal.2
    refine ⟨tied, last, rfl, ?_, ?_⟩
    · refine forall_right_of_forall₂ (((List.forall₂_and_left _ _).mpr ⟨hgoes, htied⟩).imp ?_)
      rintro bar note ⟨hbar, hshows⟩
      exact hshows.tie.trans (decide_eq_true hbar)
    · -- The bar in which the slot stops is none of those before the last one.
      have hstop : slot.stop ≤ final.1.stop := by
        rcases List.mem_append.mp hmem with hmem | hmem
        · exact absurd hreaches (hgoes stopped hmem).not_ge
        · rwa [List.mem_singleton.mp hmem] at hreaches
      exact hshown.tie.trans (decide_eq_false hstop.not_gt)

theorem bare_of_shows (htiles : Tiles lo bars hi)
    (h : List.Forall₂ (fun bar note => Shows (slot, bar) note) (slot.barsIn bars) run) :
    ∀ note ∈ run.tail, note.2.remarks = [] ∧ note.2.ornaments = [] := by
  have hordered := htiles.ordered_barsIn slot
  have hoverlaps : ∀ bar ∈ slot.barsIn bars, slot.Overlaps bar.1 :=
    fun bar => overlaps_of_mem_barsIn
  generalize slot.barsIn bars = within at *
  cases h with
  | nil => exact nofun
  | @cons first _ later run _ hlater =>
    have hfirst := (hoverlaps first List.mem_cons_self).1
    have hafter : ∀ bar ∈ later, slot.start < bar.1.start := fun bar hbar =>
      hfirst.trans_le ((List.pairwise_cons.mp hordered).1 bar hbar)
    refine forall_right_of_forall₂ (((List.forall₂_and_left _ _).mpr ⟨hafter, hlater⟩).imp ?_)
    rintro bar note ⟨hbar, hshows⟩
    exact hshows.bare hbar

theorem runOf_of_shows (htiles : Tiles lo bars hi) (hlasts : slot.start < slot.stop)
    (hlo : lo ≤ slot.start) (hhi : slot.stop ≤ hi)
    (h : List.Forall₂ (fun bar note => Shows (slot, bar) note) (slot.barsIn bars) run) :
    RunOf bars slot run where
  inBars := map_eq_map_of_forall₂ (h.imp fun _ _ hshows => hshows.inBar)
  lengths := map_eq_map_of_forall₂ (h.imp fun _ _ hshows => hshows.length)
  ties := ties_of_shows htiles (exists_stops htiles hlasts hlo hhi) h
  bare := bare_of_shows htiles h

end Runs

theorem runs_layBars {hi : Rat} {bars : List (Bar Rat)} (htiles : Tiles 0 bars hi)
    (hbars : bars ≠ []) (barsPerLine : Nat) {s : VoiceState Rat}
    (hapart : Apart (boundaries bars s.slots)) (hturns : TakeTurns s.slots)
    (hreach : ∀ slot ∈ s.slots, slot.stop - nearness ≤ hi) :
    ∃ runs, notesInBars 0 (layBars barsPerLine 1 bars s).1 = runs.flatten ∧
      List.Forall₂ (RunOf bars) s.slots runs := by
  have hslots : ∀ slot ∈ s.slots,
      slot.start ∈ boundaries bars s.slots ∧ slot.stop ∈ boundaries bars s.slots :=
    fun slot => slot_mem_boundaries
  have hturn := hturns.inTurn hapart hslots
  obtain ⟨final, hfinal, rfl⟩ := htiles.exists_stop hbars
  have hwithin : ∀ slot ∈ s.slots, slot.start < slot.stop ∧ 0 ≤ slot.start ∧
      slot.stop ≤ final.stop := fun slot hslot =>
    ⟨hturn.lasts slot hslot, hturns.starts slot hslot,
      (hapart.sub_nearness_le (hslots slot hslot).2 (stop_mem_boundaries hfinal)).mp
        (hreach slot hslot)⟩
  have hshows := shows_layBars hapart htiles barsPerLine 1 0
    (fun bar hbar => ⟨start_mem_boundaries hbar, stop_mem_boundaries hbar⟩) hslots hturn
  have hcrosswise : s.slots.Pairwise fun slot later => bars.zipIdx.Pairwise fun bar next =>
      ¬(decide (slot.Overlaps next.1) = true ∧ decide (later.Overlaps bar.1) = true) := by
    refine hturn.ordered.imp fun {slot later} hslots => ?_
    refine htiles.pairwise_zipIdx.imp fun {bar next} hbars => ?_
    rintro ⟨hnext, hlater⟩
    have hnext := (of_decide_eq_true hnext).2
    have hlater := (of_decide_eq_true hlater).1
    linarith
  have hcomm : (bars.zipIdx.flatMap fun bar =>
      (s.slots.filter (Slot.Overlaps · bar.1)).map fun slot => (slot, bar)) =
      s.slots.flatMap fun slot => (slot.barsIn bars).map fun bar => (slot, bar) :=
    flatMap_related_comm hcrosswise
  rw [hcomm] at hshows
  obtain ⟨runs, hflat, hruns⟩ := exists_runs hshows
  refine ⟨runs, hflat, ((List.forall₂_and_left _ _).mpr ⟨hwithin, hruns⟩).imp ?_⟩
  rintro slot run ⟨⟨hlasts, hlo, hhi⟩, hrun⟩
  exact runOf_of_shows htiles hlasts hlo hhi (List.forall₂_map_left_iff.mp hrun)

/-! ## Tunes -/

/-- A voice in which every slot is written as one run, and in which each bar has one end, that of
the last one being the only final bar. -/
structure Voice.LaysOut (bars : List (Bar Rat)) (slots : List (Slot Rat)) (voice : Voice) :
    Prop where
  runs : ∃ runs, notesInBars 0 voice.elements = runs.flatten ∧
    List.Forall₂ (RunOf bars) slots runs
  barEnds : voice.elements.filter Element.isBarEnd =
    List.replicate (bars.length - 1) .barLine ++ [.finalBar]

theorem le_foldl_maxOf (xs : List Rat) (least : Rat) :
    least ≤ xs.foldl Scalar.maxOf least ∧ ∀ x ∈ xs, x ≤ xs.foldl Scalar.maxOf least := by
  induction xs generalizing least with
  | nil => exact ⟨le_rfl, nofun⟩
  | cons x rest ih =>
    obtain ⟨hleast, hrest⟩ := ih (Scalar.maxOf least x)
    rw [maxOf_eq_max] at hleast hrest
    rw [List.foldl_cons, maxOf_eq_max]
    exact ⟨(le_max_left least x).trans hleast,
      List.forall_mem_cons.mpr ⟨(le_max_right least x).trans hleast, hrest⟩⟩

theorem laysOut_layVoice {hi : Rat} {bars : List (Bar Rat)} {slots : List (Slot Rat)}
    (htiles : Tiles 0 bars hi) (hbars : bars ≠ []) (hturns : TakeTurns slots)
    (hreach : ∀ slot ∈ slots, slot.stop - nearness ≤ hi) (hapart : Apart (boundaries bars slots))
    (id : Nat) (key : Key) (barsPerLine : Nat) (cues : Cues Rat) :
    (layVoice id slots bars key barsPerLine cues).1.LaysOut bars slots where
  runs := runs_layBars htiles hbars barsPerLine (s := ⟨key, [], none, slots, cues⟩)
    hapart hturns hreach
  barEnds := barEnds_layBars barsPerLine 1 hbars ⟨key, [], none, slots, cues⟩

/-- Over exact numbers, and where the places of its slots and of the bars are apart, every voice
of a tune lays out its slots on the bars that all voices share: no slot is lost, written twice
or broken, and every tie ends. -/
theorem laysOut_tuneOf (settings : TuneSettings) (s : Score Rat) :
    List.Forall₂ (fun slots (voice : Voice) =>
        Apart (boundaries (sharedBars (perform s)) slots) →
          voice.LaysOut (sharedBars (perform s)) slots)
      (voiceSlots (perform s)).value (tuneOf settings (perform s)).value.voices := by
  have hturns := takeTurns_voiceSlots s
  have hshared : sharedBars (perform s) = barGrid (perform s)
    (greatest ((voiceSlots (perform s)).value.flatten.map Slot.stop)) := rfl
  have hvoices : (tuneOf settings (perform s)).value.voices =
    (layVoices (perform s) settings.barsPerLine (voiceSlots (perform s)).value).1 := rfl
  rw [hshared, hvoices]
  generalize (voiceSlots (perform s)).value = timelines at *
  obtain ⟨hstart, hstops⟩ := le_foldl_maxOf (timelines.flatten.map Slot.stop) 0
  obtain ⟨hi, htiles, hend⟩ := tiles_barGrid (metersLast_perform s) hstart
  have hbars := barGrid_ne_nil (perform s) (greatest (timelines.flatten.map Slot.stop))
  -- The bars go as far as the voice that stops last.
  have hreach : ∀ slots ∈ timelines, ∀ slot ∈ slots, slot.stop - nearness ≤ hi := by
    intro slots hslots slot hslot
    have hstop := hstops slot.stop
      (List.mem_map_of_mem (List.mem_flatten_of_mem hslots hslot))
    exact (sub_le_sub_right hstop nearness).trans hend
  cases timelines with
  | nil => exact .nil
  | cons first others =>
    obtain ⟨hfirst, hothers⟩ := List.forall_mem_cons.mp hturns
    obtain ⟨hreachFirst, hreachOthers⟩ := List.forall_mem_cons.mp hreach
    refine .cons (fun hapart => ?_) (forall₂_of_zipIdx (s := 0) (forall₂_map_zipIdx
      (R := fun slots _ (voice : Voice) => Apart (boundaries _ slots) → voice.LaysOut _ slots)
      fun slots hslots i hapart => ?_))
    · exact laysOut_layVoice htiles hbars hfirst hreachFirst hapart _ _ _ _
    · exact laysOut_layVoice htiles hbars (hothers slots hslots) (hreachOthers slots hslots)
        hapart _ _ _ _

theorem sharedBars_single {p : Performance Rat} {slots : List (Slot Rat)} {places : List (Rat × Rat)}
    (hvoices : (voiceSlots p).value = [slots])
    (hplaces : slots.map (fun slot => (slot.start, slot.stop)) = places) :
    sharedBars p = barGrid p (greatest (places.map Prod.snd)) := by
  rw [sharedBars, hvoices, List.flatten_singleton, ← hplaces, List.map_map]
  rfl

/-- A chord over two bar lines, and a note after it. -/
theorem laysOut_tuneOf_song :
    let chord : Note Rat :=
      .sounding (.chord [.name "C4", .midi 64]) (.seconds (3 / 2)) (.seconds 3)
    let single : Note Rat :=
      .sounding (.single (.name "G4")) (.seconds (9 / 2)) (.seconds (1 / 2))
    let lead : Part Rat := (Part.labelled "lead" (some [chord, single])).playing "lead"
    let song : Score Rat := { Score.empty with bpm := some 120, parts := some [lead] }
    ∃ slots voice, (voiceSlots (perform song)).value = [slots] ∧
      (tuneOf .standard (perform song)).value.voices = [voice] ∧
      slots.map (fun slot => (slot.start, slot.stop)) = [(3, 9), (9, 10)] ∧
      (sharedBars (perform song)).map (fun bar => (bar.start, bar.stop)) =
        [(0, 4), (4, 8), (8, 12)] ∧
      Apart (boundaries (sharedBars (perform song)) slots) ∧
      voice.LaysOut (sharedBars (perform song)) slots := by
  intro chord single lead song
  have htempo : (perform song).tempo = .constant 120 := by cbv
  have hmeters : (perform song).meterChanges = [] := by cbv
  have hkeys : (perform song).keyChanges = [] := by cbv
  have hvalue : (voiceSlots (perform song)).value =
      [(slots (perform song).tempo "sequences[0]"
        (playPart song (perform song).timeLine 0 lead).value).value] := rfl
  have hplaces : (slots (perform song).tempo "sequences[0]"
      (playPart song (perform song).timeLine 0 lead).value).value.map
        (fun slot => (slot.start, slot.stop)) = [(3, 9), (9, 10)] := by
    rw [htempo, value_slots, heardNotes, sortByTime,
      List.mergeSort_of_pairwise (by decide +kernel)]
    decide +kernel
  have hlaid := laysOut_tuneOf .standard song
  rw [hvalue] at hlaid
  generalize (slots (perform song).tempo "sequences[0]"
    (playPart song (perform song).timeLine 0 lead).value).value = slots at *
  have hbars : (sharedBars (perform song)).map (fun bar => (bar.start, bar.stop)) =
      [(0, 4), (4, 8), (8, 12)] := by
    rw [sharedBars_single hvalue hplaces, barGrid, hmeters, hkeys]
    decide +kernel
  have hapart : Apart (boundaries (sharedBars (perform song)) slots) := by
    have hpairs : boundaries (sharedBars (perform song)) slots =
        ((sharedBars (perform song)).map fun bar => (bar.start, bar.stop)).flatMap
          (fun pair => [pair.1, pair.2]) ++
        (slots.map fun slot => (slot.start, slot.stop)).flatMap fun pair => [pair.1, pair.2] := by
      rw [List.flatMap_map, List.flatMap_map]
      rfl
    rw [hpairs, hbars, hplaces]
    decide +kernel
  obtain ⟨voice, _, hvoice, hnone, hvoices⟩ := List.forall₂_cons_left_iff.mp hlaid
  rw [List.forall₂_nil_left_iff.mp hnone] at hvoices
  exact ⟨slots, voice, hvalue, hvoices, hplaces, hbars, hapart, hvoice hapart⟩

end Partitura
