import Partitura.Proofs.Script.Lengths
import Partitura.Proofs.Script.Onsets

/-!
# Patterns do not drift

The rows of a pattern last from one place to a later one. Where all places are on one grid, the
lengths that are read from the rows are exact: those before the row of a step add up to its start,
and all of them to the period, so that each pass starts where the last one was to end.
-/

namespace Partitura.Script

def readTotal? (rows : List (Row Rat)) : Option Rat :=
  (rows.mapM fun row => readLength? row.text).map List.sum

def Row.isPlayed : Row Rat → Bool
  | .rest _ => false
  | .notes _ _ _ => true

def Step.row (s : Step Rat) : Row Rat := .notes s.numbers (s.stop - s.start) s.level

/-- Rows, as they are read, play each step when it starts, and together last for a time. -/
structure KeepTime (rows : List (Row Rat)) (steps : List (Step Rat)) (total : Rat) : Prop where
  starts : ∀ k s, steps[k]? = some s → ∃ before after, rows = before ++ s.row :: after ∧
    before.countP Row.isPlayed = k ∧ readTotal? before = some s.start
  played : rows.countP Row.isPlayed = steps.length
  whole : readTotal? rows = some total
  passes : ∀ n : Nat, readTotal? (List.replicate n rows).flatten = some (n * total)

/-! ## Lengths that are read exactly -/

/-- A row from one place to a later one. -/
def Row.Between (places : List Rat) (row : Row Rat) : Prop :=
  ∃ x ∈ places, ∃ y ∈ places, x ≤ y ∧ row.beats = y - x

/-- Places on one of the two grids, from zero on and not too late. -/
structure Gridded (places : List Rat) : Prop where
  grid : (∀ x ∈ places, OnGrid 24 x) ∨ ∀ x ∈ places, OnGrid 64 x
  bounds : ∀ x ∈ places, 0 ≤ x ∧ x < 2 ^ 53

section Gridded

variable {places : List Rat} (hplaces : Gridded places)

include hplaces

theorem Gridded.discernible : Discernible places := by
  intro x hx y hy
  have hfar {den : Nat} (hden : 0 < den) (hle : den ≤ 64) (h : ∀ x ∈ places, OnGrid den x) :
      x = y ∨ nearness < |x - y| := by
    refine ((h x hx).eq_or_apart hden (h y hy)).imp_right fun hunit => ?_
    have hcast : (den : Rat) ≤ 64 := by exact_mod_cast hle
    have hpos : (0 : Rat) < den := Nat.cast_pos.mpr hden
    have hsmall : (1 / 64 : Rat) ≤ 1 / den := one_div_le_one_div_of_le hpos hcast
    rw [nearness_eq]
    linarith
  exact hplaces.grid.elim (hfar (by decide) (by decide)) (hfar (by decide) (by decide))

theorem Gridded.readLength?_eq {row : Row Rat} (h : row.Between places) :
    readLength? row.text = some row.beats := by
  obtain ⟨x, hx, y, hy, hle, hbeats⟩ := h
  have hgrid : OnGrid 24 row.beats ∨ OnGrid 64 row.beats := by
    rw [hbeats]
    exact hplaces.grid.imp (fun h => (h y hy).sub (h x hx)) fun h => (h y hy).sub (h x hx)
  have hpos : 0 ≤ row.beats := by linarith
  have hlt : row.beats < 2 ^ 53 := by linarith [(hplaces.bounds x hx).1, (hplaces.bounds y hy).2]
  have hread := readBeats?_beatsText hpos hlt hgrid
  cases row with
  | rest beats => rwa [readLength?, Row.text, lengthField_restText]
  | notes numbers beats level => rwa [readLength?, lengthField_notes]

theorem Gridded.readTotal?_eq {rows : List (Row Rat)} (h : ∀ row ∈ rows, row.Between places) :
    readTotal? rows = some (passBeats rows) := by
  have hread : rows.mapM (fun row => readLength? row.text) = some (rows.map Row.beats) := by
    induction rows with
    | nil => rfl
    | cons row rest ih =>
      obtain ⟨hrow, hrest⟩ := List.forall_mem_cons.mp h
      simp [List.mapM_cons, hplaces.readLength?_eq hrow, ih hrest]
  rw [readTotal?, hread]
  rfl

end Gridded

/-! ## Rows of steps -/

section Rows

variable {places : List Rat} {period : Option Rat} {steps : List (Step Rat)}

theorem passBeats_append (rows more : List (Row Rat)) :
    passBeats (rows ++ more) = passBeats rows + passBeats more := by
  rw [passBeats, List.map_append, List.sum_append]
  rfl

theorem passBeats_cons (row : Row Rat) (rows : List (Row Rat)) :
    passBeats (row :: rows) = row.beats + passBeats rows := by
  rw [passBeats, List.map_cons, List.sum_cons]
  rfl

theorem isPlayed_silence (place stop : Rat) : (silence place stop).countP Row.isPlayed = 0 := by
  unfold silence
  split <;> rfl

theorem between_silence {place stop : Rat} (hplace : place ∈ places) (hstop : stop ∈ places) :
    ∀ row ∈ silence place stop, row.Between places := by
  have hnearness := nearness_eq
  intro row hrow
  unfold silence at hrow
  split at hrow
  · next hlong =>
    rw [List.mem_singleton.mp hrow]
    exact ⟨place, hplace, stop, hstop, by linarith, rfl⟩
  · cases hrow

theorem between_rowsFrom (hsteps : ∀ s ∈ steps, s.Placed places period)
    (hperiod : ∀ p ∈ period, p ∈ places) {place : Rat} (hplace : place ∈ places) :
    ∀ row ∈ rowsFrom period place steps, row.Between places := by
  induction steps generalizing place with
  | nil =>
    cases period with
    | none => nofun
    | some p => exact between_silence hplace (hperiod p rfl)
  | cons s rest ih =>
    obtain ⟨hs, hrest⟩ := List.forall_mem_cons.mp hsteps
    exact List.forall_mem_append.mpr ⟨between_silence hplace hs.start, List.forall_mem_cons.mpr
      ⟨⟨s.start, hs.start, s.stop, hs.stop, hs.lasts.le, rfl⟩, ih hrest hs.stop⟩⟩

theorem isPlayed_rowsFrom (period : Option Rat) (place : Rat) (steps : List (Step Rat)) :
    (rowsFrom period place steps).countP Row.isPlayed = steps.length := by
  induction steps generalizing place with
  | nil =>
    cases period with
    | none => rfl
    | some p => exact isPlayed_silence place p
  | cons s rest ih =>
    rw [rowsFrom, List.countP_append, isPlayed_silence, List.countP_cons_of_pos rfl, ih,
      List.length_cons, Nat.zero_add]

variable (hplaces : Discernible places)

include hplaces

theorem passBeats_silence {place stop : Rat} (hplace : place ∈ places) (hstop : stop ∈ places)
    (hle : place ≤ stop) : passBeats (silence place stop) = stop - place := by
  have hsilence := (rows_silence hplaces hplace hstop hle 0 []).2
  rw [List.append_nil] at hsilence
  exact hsilence.trans (add_zero _)

/-- The rows before the one of a step last from the place to its start. -/
theorem exists_rowsFrom (hsteps : ∀ s ∈ steps, s.Placed places period)
    (hturns : steps.Pairwise fun a b => a.stop ≤ b.start) {place : Rat} (hplace : place ∈ places)
    (hafter : ∀ s ∈ steps, place ≤ s.start) {k : Nat} {s : Step Rat} (hs : steps[k]? = some s) :
    ∃ before, rowsFrom period place steps =
        before ++ s.row :: rowsFrom period s.stop (steps.drop (k + 1)) ∧
      before.countP Row.isPlayed = k ∧ passBeats before = s.start - place := by
  induction steps generalizing place k with
  | nil => cases hs
  | cons first rest ih =>
    obtain ⟨hfirst, hrest⟩ := List.forall_mem_cons.mp hsteps
    obtain ⟨hturn, hturns⟩ := List.pairwise_cons.mp hturns
    have hsilence := passBeats_silence hplaces hplace hfirst.start (hafter first List.mem_cons_self)
    cases k with
    | zero =>
      obtain rfl := Option.some.inj hs
      exact ⟨silence place first.start, rfl, isPlayed_silence place first.start, hsilence⟩
    | succ k =>
      obtain ⟨before, hrows, hcount, hbeats⟩ := ih hrest hturns hfirst.stop hturn hs
      refine ⟨silence place first.start ++ first.row :: before, ?_, ?_, ?_⟩
      · rw [rowsFrom, hrows, List.append_assoc, List.cons_append]
        rfl
      · rw [List.countP_append, isPlayed_silence, List.countP_cons_of_pos rfl, hcount,
          Nat.zero_add]
      · rw [passBeats_append, passBeats_cons, hsilence, hbeats, Step.row, Row.beats]
        ring

theorem passBeats_rowsFrom (hsteps : ∀ s ∈ steps, s.Placed places period)
    (hperiod : ∀ p ∈ period, p ∈ places) (hturns : steps.Pairwise fun a b => a.stop ≤ b.start)
    {place : Rat} (hplace : place ∈ places) (hafter : ∀ s ∈ steps, place ≤ s.start)
    {last : Step Rat} (hlast : steps.getLast? = some last) :
    passBeats (rowsFrom period place steps) = period.getD last.stop - place := by
  have hplaced := hsteps last (List.mem_of_getLast? hlast)
  have hpositive : 0 < steps.length := List.length_pos_of_mem (List.mem_of_getLast? hlast)
  rw [List.getLast?_eq_getElem?] at hlast
  obtain ⟨before, hrows, -, hbefore⟩ :=
    exists_rowsFrom hplaces hsteps hturns hplace hafter hlast
  have htail : passBeats (rowsFrom period last.stop []) = period.getD last.stop - last.stop := by
    cases period with
    | none => exact (sub_self last.stop).symm
    | some p => exact passBeats_silence hplaces hplaced.stop (hperiod p rfl) (hplaced.within p rfl)
  rw [hrows, Nat.sub_add_cancel hpositive, List.drop_length, passBeats_append, passBeats_cons,
    hbefore, htail, Step.row, Row.beats]
  ring

end Rows

/-! ## Patterns -/

theorem passBeats_replicate (n : Nat) (rows : List (Row Rat)) :
    passBeats (List.replicate n rows).flatten = n * passBeats rows := by
  induction n with
  | zero => simp [passBeats]
  | succ n ih =>
    rw [List.replicate_succ, List.flatten_cons, passBeats_append, ih]
    push_cast
    ring

theorem gridded_patternPlaces {s : Score Rat} {part : PlayedPart Rat}
    (hpart : part ∈ (perform s).parts)
    (hgrid : (∀ x ∈ patternPlaces (perform s).tempo part, OnGrid 24 x) ∨
      ∀ x ∈ patternPlaces (perform s).tempo part, OnGrid 64 x)
    (hbound : ∀ x ∈ patternPlaces (perform s).tempo part, x < 2 ^ 53) :
    Gridded (patternPlaces (perform s).tempo part) := by
  refine ⟨hgrid, fun x hx => ⟨?_, hbound x hx⟩⟩
  have hlaid := laid_tempo s
  simp only [patternPlaces, List.cons_append, List.mem_cons, List.mem_append, Option.mem_toList,
    List.mem_flatMap, List.mem_filter, List.not_mem_nil, or_false] at hx
  rcases hx with rfl | hperiod | ⟨n, ⟨hn, -⟩, rfl | rfl⟩
  · exact le_rfl
  · obtain ⟨p, hp, rfl⟩ := Option.map_eq_some_iff.mp hperiod
    have hplayable := playable_repetition hpart
    refine hlaid.beatAtSeconds_nonneg ?_
    cases hrepetition : part.repetition with
    | once =>
      rw [hrepetition] at hp
      cases hp
    | endless period =>
      rw [hrepetition] at hp hplayable
      obtain rfl := Option.some.inj hp
      exact le_trans (by norm_num) hplayable
    | finite span period =>
      rw [hrepetition] at hp hplayable
      obtain rfl := Option.some.inj hp
      exact le_trans (by norm_num) hplayable.1
  · exact hlaid.beatAtSeconds_nonneg (mem_notes_perform hpart hn).1
  · obtain ⟨hstart, hduration⟩ := mem_notes_perform hpart hn
    exact hlaid.beatAtSeconds_nonneg (add_nonneg hstart hduration)

/-- A pattern with notes on a grid keeps time, pass after pass, with lengths as they are read. -/
theorem keepTime_planPart (s : Score Rat) {part : PlayedPart Rat}
    (hpart : part ∈ (perform s).parts)
    (hgrid : (∀ x ∈ patternPlaces (perform s).tempo part, OnGrid 24 x) ∨
      ∀ x ∈ patternPlaces (perform s).tempo part, OnGrid 64 x)
    (hbound : ∀ x ∈ patternPlaces (perform s).tempo part, x < 2 ^ 53)
    (hplays : ∃ n ∈ part.notes,
      Plays (perform s).tempo (periodBeats (perform s).tempo part) n)
    (graph : GraphPlan Rat) (names : Names) (i : Nat) (name : String) :
    ∃ pattern last, (planPart (perform s) graph names i name part).value.1.pattern = some pattern ∧
      (steps (perform s).tempo (entryPath "sequences" i) part).value.getLast? = some last ∧
      KeepTime pattern.rows (steps (perform s).tempo (entryPath "sequences" i) part).value
        ((periodBeats (perform s).tempo part).getD last.stop) := by
  have hlaid := laid_tempo s
  have hmono := TempoMap.beatAtSeconds_strictMono hlaid.linked
  have hplaces := gridded_patternPlaces hpart hgrid hbound
  obtain ⟨hsteps, hstarts⟩ := laid_steps hmono hplaces.discernible (entryPath "sequences" i)
  obtain ⟨symbol, outlet, mappings, hpattern⟩ :=
    pattern_planPart (perform s) graph names i name part
  have hplaced : ∀ step ∈ (steps (perform s).tempo (entryPath "sequences" i) part).value,
      step.Placed (patternPlaces (perform s).tempo part) (periodBeats (perform s).tempo part) :=
    fun step hstep => hsteps.placed step (List.mem_reverse.mpr hstep)
  have hturns := List.pairwise_reverse.mp hsteps.turns
  have hne : (steps (perform s).tempo (entryPath "sequences" i) part).value ≠ [] := by
    obtain ⟨n, hn, hplays⟩ := hplays
    have hmem := (hstarts _).mpr ⟨n, hn, hplays, rfl⟩
    intro hempty
    rw [hempty] at hmem
    cases hmem
  generalize (steps (perform s).tempo (entryPath "sequences" i) part).value = played at *
  have hzero : (0 : Rat) ∈ patternPlaces (perform s).tempo part := List.mem_cons_self
  have hperiod : ∀ p ∈ periodBeats (perform s).tempo part,
      p ∈ patternPlaces (perform s).tempo part :=
    fun p hp => List.mem_cons_of_mem _ (List.mem_append_left _ (Option.mem_toList.mpr hp))
  have hafter : ∀ step ∈ played, 0 ≤ step.start :=
    fun step hstep => (hplaces.bounds _ (hplaced step hstep).start).1
  obtain ⟨last, hlast⟩ := List.getLast?_isSome.mpr hne |> Option.isSome_iff_exists.mp
  rw [if_neg (by simpa using hne)] at hpattern
  refine ⟨_, last, hpattern, hlast, ?_⟩
  have hbetween := between_rowsFrom hplaced hperiod hzero
  have htotal := passBeats_rowsFrom hplaces.discernible hplaced hperiod hturns hzero hafter hlast
  rw [sub_zero] at htotal
  generalize hrows : rowsFrom (periodBeats (perform s).tempo part) 0 played = rows at *
  refine ⟨fun k step hstep => ?_, ?_, ?_, fun n => ?_⟩
  · obtain ⟨before, hsplit, hcount, hbeats⟩ :=
      exists_rowsFrom hplaces.discernible hplaced hturns hzero hafter hstep
    rw [hrows] at hsplit
    refine ⟨before, _, hsplit, hcount, ?_⟩
    rw [hplaces.readTotal?_eq fun row hrow => hbetween row ?_, hbeats, sub_zero]
    rw [hsplit]
    exact List.mem_append_left _ hrow
  · rw [← hrows]
    exact isPlayed_rowsFrom _ _ _
  · rw [hplaces.readTotal?_eq hbetween, htotal]
  · rw [hplaces.readTotal?_eq, passBeats_replicate, htotal]
    intro row hrow
    obtain ⟨pass, hpass, hrow⟩ := List.mem_flatten.mp hrow
    rw [List.eq_of_mem_replicate hpass] at hrow
    exact hbetween row hrow

/-- A loop of two beats with a triplet that overlaps a chord. -/
theorem keepTime_planPart_triplets :
    let kick : Note Rat := .sounding (.single (.name "C2")) (.seconds (1 / 3)) (.seconds (2 / 3))
    let chord : Note Rat :=
      .sounding (.chord [.name "D2", .midi 42]) (.seconds (2 / 3)) (.seconds (1 / 4))
    let beat : Part Rat := ((Part.labelled "beat" (some [kick, chord])).playing
      "kit").looped (.flag true) (some (.seconds 2))
    let song : Score Rat := { Score.empty with bpm := some 60, parts := some [beat] }
    let graph : GraphPlan Rat × Names := (planGraph .empty (perform song)).value
    ∃ part ∈ (perform song).parts,
      (∀ x ∈ patternPlaces (perform song).tempo part, OnGrid 24 x) ∧
      (∀ x ∈ patternPlaces (perform song).tempo part, x < 2 ^ 53) ∧
      (∃ n ∈ part.notes, Plays (perform song).tempo (periodBeats (perform song).tempo part) n) ∧
      ∃ pattern last,
        (planPart (perform song) graph.1 graph.2 0 "beat" part).value.1.pattern = some pattern ∧
        (steps (perform song).tempo (entryPath "sequences" 0) part).value.getLast? = some last ∧
        KeepTime pattern.rows (steps (perform song).tempo (entryPath "sequences" 0) part).value
          ((periodBeats (perform song).tempo part).getD last.stop) := by
  intro kick chord beat song graph
  have hpart := getElem?_parts (s := song) (i := 0) (p := beat) rfl
  generalize hplayed : (playPart song (perform song).timeLine 0 beat).value = part at hpart
  have hmem := List.mem_of_getElem? hpart
  have hplaces : ∀ x ∈ patternPlaces (perform song).tempo part,
      (x * (24 : Nat)).den = 1 ∧ x < 2 ^ 53 := by
    rw [← hplayed]
    decide +kernel
  have hgrid : ∀ x ∈ patternPlaces (perform song).tempo part, OnGrid 24 x :=
    fun x hx => (OnGrid.iff_den (by decide)).mpr (hplaces x hx).1
  have hbound : ∀ x ∈ patternPlaces (perform song).tempo part, x < 2 ^ 53 :=
    fun x hx => (hplaces x hx).2
  have hplays : ∃ n ∈ part.notes,
      0 < n.duration ∧ n.pitches ≠ [] ∧ (periodBeats (perform song).tempo part).all fun p =>
        decide ((perform song).tempo.beatAtSeconds n.start < p) := by
    rw [← hplayed]
    decide +kernel
  obtain ⟨n, hn, hlong, hpitches, hearly⟩ := hplays
  have hplays : Plays (perform song).tempo (periodBeats (perform song).tempo part) n :=
    ⟨hlong, hpitches, fun p hp => by simpa [Option.mem_def.mp hp] using hearly⟩
  exact ⟨part, hmem, hgrid, hbound, ⟨n, hn, hplays⟩,
    keepTime_planPart song hmem (.inl hgrid) hbound ⟨n, hn, hplays⟩ graph.1 graph.2 0 "beat"⟩

end Partitura.Script
