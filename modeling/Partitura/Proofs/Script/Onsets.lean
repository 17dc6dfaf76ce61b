import Partitura.Proofs.Performance.Passes
import Partitura.Proofs.Tune.Turns
import Partitura.Score.Build
import Partitura.Script.Part

/-!
# When patterns play

The rows of a pattern follow each other without gaps, and a pass of them lasts as long as the
period of the part. So at a constant tempo a pattern plays at the onsets at which the notes of
the unrolled part start, as long as the loop goes on: a pattern plays its last pass to the end,
and a note that starts after the period of an endless loop is in no pass. Places that are nearer
to each other than the nearness are not told apart by a pattern.
-/

namespace Partitura.Script

/-! ## Onsets -/

def Row.beats : Row Rat → Rat
  | .rest beats => beats
  | .notes _ beats _ => beats

def onsetsFrom : Rat → List (Row Rat) → List Rat
  | _, [] => []
  | place, .rest beats :: rows => onsetsFrom (place + beats) rows
  | place, .notes _ beats _ :: rows => place :: onsetsFrom (place + beats) rows

def passBeats (rows : List (Row Rat)) : Rat := (rows.map Row.beats).sum

/-- The onsets of a pattern in beats, pass after pass; of one without end, those of one pass. -/
def Pattern.onsets (p : Pattern Rat) : List Rat :=
  (List.range (p.repeats.getD 1)).flatMap fun pass : Nat =>
    onsetsFrom (pass * passBeats p.rows) p.rows

def PartPlan.onsets (plan : PartPlan Rat) : List Rat := plan.pattern.toList.flatMap Pattern.onsets

def heardOnsets (tempo : TempoMap Rat) (notes : List (PlayedNote Rat)) : List Rat :=
  (notes.filter fun n => decide (0 < n.duration) && !n.pitches.isEmpty).map
    fun n => tempo.beatAtSeconds n.start

/-- Places that a pattern tells apart. -/
def Discernible (places : List Rat) : Prop :=
  ∀ x ∈ places, ∀ y ∈ places, x = y ∨ nearness < |x - y|

instance (places : List Rat) : Decidable (Discernible places) :=
  inferInstanceAs (Decidable (∀ x ∈ places, ∀ y ∈ places, x = y ∨ nearness < |x - y|))

/-- The places in beats that a pattern is made of: its start, the period of the part, and where
notes with pitches start and stop. -/
def patternPlaces (tempo : TempoMap Rat) (part : PlayedPart Rat) : List Rat :=
  0 :: (periodBeats tempo part).toList ++ (part.notes.filter fun n => !n.pitches.isEmpty).flatMap
    fun n => [tempo.beatAtSeconds n.start, tempo.beatAtSeconds n.stop]

/-- A place that lies before the end of a loop: the span of a finite one, and the period of one
without end. -/
def Within (tempo : TempoMap Rat) : Repetition Rat → Rat → Prop
  | .once, _ => True
  | .endless period, x => x < tempo.beatAtSeconds period
  | .finite span _, x => x < tempo.beatAtSeconds span

/-! ## Constant tempos -/

end Partitura.Script

namespace Partitura.TempoMap

theorem beatAtSeconds_constant {a : TempoSegment Rat} {rest : List (TempoSegment Rat)}
    (h : Linked (a :: rest)) (hconstant : ∀ b ∈ rest, b.bpm = a.bpm) (s : Rat) :
    (TempoMap.mk a rest).beatAtSeconds s = a.beatAt s := by
  induction rest generalizing a with
  | nil => exact beatAtSeconds_nil s
  | cons b rest ih =>
    obtain ⟨ha, hab, hrest⟩ := linked_cons_cons.mp h
    obtain ⟨hb, hconstant⟩ := List.forall_mem_cons.mp hconstant
    rw [beatAtSeconds_cons h]
    split
    · rw [ih hrest fun c hc => (hconstant c hc).trans hb.symm, TempoSegment.beatAt, hb,
        hab.seconds_eq, TempoSegment.beatAt]
      have hne : a.bpm ≠ 0 := ha.ne'
      field_simp
      ring
    · rfl

theorem Laid.beatAtSeconds_linear {m : TempoMap Rat} (h : m.Laid)
    (hconstant : ∀ b ∈ m.later, b.bpm = m.first.bpm) (s : Rat) :
    m.beatAtSeconds s = s * (m.first.bpm / 60) := by
  obtain ⟨hbeat, hseconds⟩ := h.starts
  have hfirst := beatAtSeconds_constant h.linked hconstant s
  rw [TempoSegment.beatAt, hbeat, hseconds] at hfirst
  refine hfirst.trans ?_
  ring

end Partitura.TempoMap

namespace Partitura.Script

/-! ## Steps -/

section Steps

variable {places : List Rat} (hplaces : Discernible places)

include hplaces

theorem Discernible.near_iff {x y : Rat} (hx : x ∈ places) (hy : y ∈ places) :
    Scalar.magnitude (x - y) < nearness ↔ x = y := by
  have hmagnitude : Scalar.magnitude (x - y) = |x - y| := by
    unfold Scalar.magnitude
    split
    · next h => exact (abs_of_neg h).symm
    · next h => exact (abs_of_nonneg (not_lt.mp h)).symm
  rw [hmagnitude]
  constructor
  · intro hnear
    exact (hplaces x hx y hy).resolve_right hnear.not_gt
  · rintro rfl
    rw [sub_self, abs_zero, nearness_eq]
    norm_num

theorem Discernible.lt_iff {x y : Rat} (hx : x ∈ places) (hy : y ∈ places) :
    x + nearness < y ↔ x < y := by
  have hnear : (0 : Rat) < nearness := by rw [nearness_eq]; norm_num
  constructor
  · intro h
    linarith
  · intro hlt
    have hfar := (hplaces x hx y hy).resolve_left hlt.ne
    rw [abs_sub_comm, abs_of_pos (sub_pos.mpr hlt)] at hfar
    linarith

end Steps

/-- A step that starts and stops at places of a list, and stops by the end of the period. -/
structure Step.Placed (places : List Rat) (period : Option Rat) (s : Step Rat) : Prop where
  start : s.start ∈ places
  stop : s.stop ∈ places
  lasts : s.start < s.stop
  within : ∀ p ∈ period, s.stop ≤ p

/-- A note with a length and a pitch that starts before the period is over. -/
def Plays (tempo : TempoMap Rat) (period : Option Rat) (n : PlayedNote Rat) : Prop :=
  0 < n.duration ∧ n.pitches ≠ [] ∧ ∀ p ∈ period, tempo.beatAtSeconds n.start < p

def cutStop (period : Option Rat) (stop : Rat) : Rat := (period.map (min stop)).getD stop

theorem cutStop_le {period : Option Rat} {p : Rat} (hp : p ∈ period) (stop : Rat) :
    cutStop period stop ≤ p := by
  obtain rfl := Option.mem_def.mp hp
  exact min_le_right stop p

theorem lt_cutStop_iff (period : Option Rat) (start stop : Rat) :
    start < cutStop period stop ↔ start < stop ∧ ∀ p ∈ period, start < p := by
  cases period with
  | none => simp [cutStop]
  | some p => simp [cutStop]

theorem cutStop_mem {places : List Rat} {period : Option Rat} (hperiod : ∀ p ∈ period, p ∈ places)
    {stop : Rat} (hstop : stop ∈ places) : cutStop period stop ∈ places := by
  cases period with
  | none => exact hstop
  | some p =>
    rcases min_choice stop p with hmin | hmin
    · simpa [cutStop, hmin] using hstop
    · simpa [cutStop, hmin] using hperiod p rfl

theorem value_noteStep_eq (tempo : TempoMap Rat) (period : Option Rat) (path : String)
    (n : PlayedNote Rat) :
    ∃ numbers, (noteStep tempo period path n).value =
      if (∃ p ∈ period, p - nearness ≤ tempo.beatAtSeconds n.start) ∨
        cutStop period (tempo.beatAtSeconds n.stop) - tempo.beatAtSeconds n.start < nearness ∨
        n.pitches = [] then none
      else some ⟨tempo.beatAtSeconds n.start, cutStop period (tempo.beatAtSeconds n.stop), numbers,
        n.velocity⟩ := by
  refine ⟨n.pitches.map fun v => (pitchNumber (path ++ "." ++ entryPath "notes" n.index ++ ".note")
    (n.microtuning.getD 0 / 100) v).value, ?_⟩
  have hnumbers (noted : String) (cents : Rat) :
      (Outcome.collect (n.pitches.map (pitchNumber noted cents))).value =
        n.pitches.map fun v => (pitchNumber noted cents v).value := by
    rw [Outcome.value_collect, List.map_map]
    rfl
  unfold noteStep
  cases period with
  | none =>
    simp only [Bool.false_eq_true, false_or, List.isEmpty_iff, cutStop, Option.map_none,
      Option.getD_none, Option.not_mem_none, false_and, exists_false]
    split
    · rfl
    · simp only [Outcome.value_bind, Outcome.value_pure, hnumbers]
  | some p =>
    simp only [decide_eq_true_eq, List.isEmpty_iff, cutStop, Option.map_some, Option.getD_some,
      Option.mem_some_iff, exists_eq_left', minOf_eq_min]
    split
    · rfl
    · simp only [Outcome.value_bind, Outcome.value_pure, hnumbers]

section Note

variable {tempo : TempoMap Rat} (htempo : StrictMono tempo.beatAtSeconds) {part : PlayedPart Rat}
  (hplaces : Discernible (patternPlaces tempo part))

include htempo hplaces

/-- A note makes a step if it has a length and a pitch and starts before the period is over, and
the step starts with the note. -/
theorem noteStep_cases (path : String) {n : PlayedNote Rat} (hn : n ∈ part.notes) :
    (Plays tempo (periodBeats tempo part) n ∧
      ∃ step, (noteStep tempo (periodBeats tempo part) path n).value = some step ∧
        step.start = tempo.beatAtSeconds n.start ∧
        step.Placed (patternPlaces tempo part) (periodBeats tempo part)) ∨
    ¬ Plays tempo (periodBeats tempo part) n ∧
      (noteStep tempo (periodBeats tempo part) path n).value = none := by
  obtain ⟨numbers, hvalue⟩ := value_noteStep_eq tempo (periodBeats tempo part) path n
  rw [hvalue]
  by_cases hpitches : n.pitches = []
  · exact .inr ⟨fun h => h.2.1 hpitches, if_pos (.inr (.inr hpitches))⟩
  have hperiod {p : Rat} (hp : p ∈ periodBeats tempo part) : p ∈ patternPlaces tempo part := by
    simp only [patternPlaces, List.cons_append, List.mem_cons, List.mem_append, Option.mem_toList]
    exact .inr (.inl hp)
  have hnote {x : Rat} (hx : x ∈ [tempo.beatAtSeconds n.start, tempo.beatAtSeconds n.stop]) :
      x ∈ patternPlaces tempo part := by
    have hmem : x ∈ (part.notes.filter fun n => !n.pitches.isEmpty).flatMap
        fun n => [tempo.beatAtSeconds n.start, tempo.beatAtSeconds n.stop] :=
      List.mem_flatMap.mpr ⟨n, List.mem_filter.mpr ⟨hn, by simpa using hpitches⟩, hx⟩
    exact List.mem_cons_of_mem _ (List.mem_append_right _ hmem)
  have hstart : tempo.beatAtSeconds n.start ∈ patternPlaces tempo part :=
    hnote List.mem_cons_self
  have hstop : tempo.beatAtSeconds n.stop ∈ patternPlaces tempo part :=
    hnote (List.mem_cons_of_mem _ List.mem_cons_self)
  have hlasts : tempo.beatAtSeconds n.start < tempo.beatAtSeconds n.stop ↔ 0 < n.duration := by
    rw [htempo.lt_iff_lt, PlayedNote.stop]
    exact lt_add_iff_pos_right _
  have hcut := cutStop_mem (fun p => hperiod) hstop
  by_cases hsounds : tempo.beatAtSeconds n.start <
      cutStop (periodBeats tempo part) (tempo.beatAtSeconds n.stop)
  · obtain ⟨hlong, hearly⟩ := (lt_cutStop_iff _ _ _).mp hsounds
    refine .inl ⟨⟨hlasts.mp hlong, hpitches, hearly⟩, _, if_neg ?_, rfl,
      hstart, hcut, hsounds, fun p hp => cutStop_le hp _⟩
    rintro (⟨p, hp, hlate⟩ | hshort | hnone)
    · have hfar := (hplaces.lt_iff hstart (hperiod hp)).mpr (hearly p hp)
      linarith
    · have hfar := (hplaces.lt_iff hstart hcut).mpr hsounds
      linarith
    · exact hpitches hnone
  · refine .inr ⟨fun ⟨hlong, _, hearly⟩ => hsounds ((lt_cutStop_iff _ _ _).mpr
      ⟨hlasts.mpr hlong, hearly⟩), if_pos (.inr (.inl ?_))⟩
    have hnearness := nearness_eq
    have hover := not_lt.mp hsounds
    linarith

end Note

/-! ## Adding steps -/

/-- Steps of which the last one comes first, each of which has stopped when the next one
starts. -/
structure Laid (places : List Rat) (period : Option Rat) (steps : List (Step Rat)) : Prop where
  placed : ∀ s ∈ steps, s.Placed places period
  turns : steps.Pairwise fun b a => a.stop ≤ b.start

section Adding

variable {places : List Rat} (hplaces : Discernible places) {period : Option Rat}
  {steps : List (Step Rat)}

include hplaces

theorem laid_addStep {next : Step Rat} (h : Laid places period steps)
    (hnext : next.Placed places period) (hafter : ∀ s ∈ steps, s.start ≤ next.start) :
    Laid places period (addStep steps next) ∧
      ∀ x, x ∈ (addStep steps next).map Step.start ↔ x ∈ steps.map Step.start ∨ x = next.start := by
  cases steps with
  | nil => exact ⟨⟨by simpa [addStep] using hnext, by simp [addStep]⟩, by simp [addStep]⟩
  | cons last earlier =>
    obtain ⟨hlast, hearlier⟩ := List.forall_mem_cons.mp h.placed
    obtain ⟨hturn, hturns⟩ := List.pairwise_cons.mp h.turns
    have hle := hafter last List.mem_cons_self
    unfold addStep
    dsimp only
    split
    · next hnear =>
      have hsame := (hplaces.near_iff hnext.start hlast.start).mp hnear
      have hmax : (Step.mk last.start (Scalar.maxOf last.stop next.stop)
          (joinNumbers last.numbers next.numbers) last.level).Placed places period := by
        have hlasts : last.start < max last.stop next.stop := lt_max_of_lt_left hlast.lasts
        have hwithin (p : Rat) (hp : p ∈ period) : max last.stop next.stop ≤ p :=
          max_le (hlast.within p hp) (hnext.within p hp)
        have hplace : max last.stop next.stop ∈ places := by
          rcases max_choice last.stop next.stop with hstop | hstop <;> rw [hstop]
          exacts [hlast.stop, hnext.stop]
        rw [maxOf_eq_max]
        exact ⟨hlast.start, hplace, hlasts, hwithin⟩
      refine ⟨⟨List.forall_mem_cons.mpr ⟨hmax, hearlier⟩,
        List.pairwise_cons.mpr ⟨hturn, hturns⟩⟩, fun x => ?_⟩
      simp only [List.map_cons, List.mem_cons, hsame]
      tauto
    · next hapart =>
      have hlt : last.start < next.start := lt_of_le_of_ne hle fun hsame =>
        hapart ((hplaces.near_iff hnext.start hlast.start).mpr hsame.symm)
      have hafterAll : ∀ a ∈ earlier, a.stop ≤ next.start := fun a ha => (hturn a ha).trans hle
      split
      · next hover =>
        -- The last step is cut where the next one starts.
        have hcut : (Step.mk last.start next.start last.numbers last.level).Placed places period :=
          ⟨hlast.start, hnext.start, hlt, fun p hp => hnext.lasts.le.trans (hnext.within p hp)⟩
        refine ⟨⟨List.forall_mem_cons.mpr ⟨hnext, List.forall_mem_cons.mpr ⟨hcut, hearlier⟩⟩,
          List.pairwise_cons.mpr ⟨List.forall_mem_cons.mpr ⟨le_rfl, hafterAll⟩,
            List.pairwise_cons.mpr ⟨hturn, hturns⟩⟩⟩, fun x => ?_⟩
        simp only [List.map_cons, List.mem_cons]
        tauto
      · next hover =>
        have hstopped : last.stop ≤ next.start := by
          rw [lt_sub_iff_add_lt, hplaces.lt_iff hnext.start hlast.stop] at hover
          exact not_lt.mp hover
        refine ⟨⟨List.forall_mem_cons.mpr ⟨hnext, h.placed⟩,
          List.pairwise_cons.mpr ⟨List.forall_mem_cons.mpr ⟨hstopped, hafterAll⟩, h.turns⟩⟩,
          fun x => ?_⟩
        simp only [List.map_cons, List.mem_cons]
        tauto

theorem laid_foldl {single : List (Step Rat)} (h : Laid places period steps)
    (hsingle : ∀ s ∈ single, s.Placed places period)
    (hsorted : single.Pairwise fun a b => a.start ≤ b.start)
    (hafter : ∀ s ∈ steps, ∀ next ∈ single, s.start ≤ next.start) :
    Laid places period (single.foldl addStep steps) ∧
      ∀ x, x ∈ (single.foldl addStep steps).map Step.start ↔
        x ∈ steps.map Step.start ∨ x ∈ single.map Step.start := by
  induction single generalizing steps with
  | nil => exact ⟨h, by simp⟩
  | cons next rest ih =>
    obtain ⟨hnext, hrest⟩ := List.forall_mem_cons.mp hsingle
    obtain ⟨hfirst, hsorted⟩ := List.pairwise_cons.mp hsorted
    obtain ⟨hadded, hstarts⟩ := laid_addStep hplaces h hnext
      fun s hs => hafter s hs next List.mem_cons_self
    obtain ⟨hlaid, hall⟩ := ih hadded hrest hsorted fun s hs later hlater => by
      rcases (hstarts s.start).mp (List.mem_map_of_mem hs) with hheld | hnew
      · obtain ⟨held, hheld, hstart⟩ := List.mem_map.mp hheld
        rw [← hstart]
        exact hafter held hheld later (List.mem_cons_of_mem _ hlater)
      · rw [hnew]
        exact hfirst later hlater
    refine ⟨hlaid, fun x => ?_⟩
    rw [List.foldl_cons, hall x, hstarts x, List.map_cons, List.mem_cons, or_assoc]

/-! ## Rows -/

theorem rows_silence {place stop : Rat} (hplace : place ∈ places) (hstop : stop ∈ places)
    (hle : place ≤ stop) (base : Rat) (rows : List (Row Rat)) :
    onsetsFrom base (silence place stop ++ rows) = onsetsFrom (base + (stop - place)) rows ∧
      passBeats (silence place stop ++ rows) = stop - place + passBeats rows := by
  unfold silence
  split
  · exact ⟨rfl, by simp [passBeats, Row.beats]⟩
  · next hnone =>
    rw [hplaces.lt_iff hplace hstop, not_lt] at hnone
    obtain rfl := le_antisymm hle hnone
    simp

theorem onsets_rowsFrom (hsteps : ∀ s ∈ steps, s.Placed places period)
    (hperiod : ∀ p ∈ period, p ∈ places)
    (hturns : steps.Pairwise fun a b => a.stop ≤ b.start) {place : Rat} (hplace : place ∈ places)
    (hafter : ∀ s ∈ steps, place ≤ s.start) (hend : ∀ p ∈ period, place ≤ p) (base : Rat) :
    onsetsFrom base (rowsFrom period place steps) =
        steps.map (fun s => base + (s.start - place)) ∧
      ∀ p ∈ period, passBeats (rowsFrom period place steps) = p - place := by
  induction steps generalizing place base with
  | nil =>
    cases period with
    | none => exact ⟨rfl, nofun⟩
    | some p =>
      have hsilence := rows_silence hplaces hplace (hperiod p rfl) (hend p rfl) base []
      rw [List.append_nil] at hsilence
      refine ⟨hsilence.1, fun q hq => ?_⟩
      obtain rfl := Option.some.inj hq
      exact hsilence.2.trans (add_zero _)
  | cons s rest ih =>
    obtain ⟨hs, hrest⟩ := List.forall_mem_cons.mp hsteps
    obtain ⟨hturn, hturns⟩ := List.pairwise_cons.mp hturns
    obtain ⟨hbefore, -⟩ := List.forall_mem_cons.mp hafter
    obtain ⟨honsets, hbeats⟩ := ih hrest hturns hs.stop hturn hs.within
      (base + (s.start - place) + (s.stop - s.start))
    obtain ⟨hgap, hgapBeats⟩ := rows_silence hplaces hplace hs.start hbefore base
      (.notes s.numbers (s.stop - s.start) s.level :: rowsFrom period s.stop rest)
    rw [rowsFrom, hgap, hgapBeats, onsetsFrom, honsets]
    refine ⟨?_, fun p hp => ?_⟩
    · rw [List.map_cons]
      refine congrArg _ (List.map_congr_left fun t _ => ?_)
      ring
    · rw [passBeats, List.map_cons, List.sum_cons, ← passBeats, hbeats p hp, Row.beats]
      ring

end Adding

/-! ## Patterns -/

section Part

variable {tempo : TempoMap Rat} (htempo : StrictMono tempo.beatAtSeconds) {part : PlayedPart Rat}
  (hplaces : Discernible (patternPlaces tempo part))

include htempo hplaces

theorem laid_steps (path : String) :
    Laid (patternPlaces tempo part) (periodBeats tempo part) (steps tempo path part).value.reverse ∧
      ∀ x, x ∈ (steps tempo path part).value.map Step.start ↔
        ∃ n ∈ part.notes, Plays tempo (periodBeats tempo part) n ∧
          tempo.beatAtSeconds n.start = x := by
  have hmem {n : PlayedNote Rat} : n ∈ part.sortedNotes ↔ n ∈ part.notes := List.mem_mergeSort
  have hsingle {n : PlayedNote Rat} (hn : n ∈ part.notes) {step : Step Rat}
      (hstep : (noteStep tempo (periodBeats tempo part) path n).value = some step) :
      Plays tempo (periodBeats tempo part) n ∧ step.start = tempo.beatAtSeconds n.start ∧
        step.Placed (patternPlaces tempo part) (periodBeats tempo part) := by
    rcases noteStep_cases htempo hplaces path hn with ⟨hplays, _, hvalue, hstep'⟩ | ⟨-, hnone⟩
    · obtain rfl := Option.some.inj (hstep.symm.trans hvalue)
      exact ⟨hplays, hstep'⟩
    · rw [hnone] at hstep
      cases hstep
  have hsorted : (part.sortedNotes.filterMap fun n =>
      (noteStep tempo (periodBeats tempo part) path n).value).Pairwise
        fun a b => a.start ≤ b.start := by
    refine List.pairwise_filterMap.mpr ?_
    refine (pairwise_sortByTime_rat PlayedNote.start part.notes).imp_of_mem
      fun {n m} hn hm hle a ha b hb => ?_
    rw [(hsingle (hmem.mp hn) ha).2.1, (hsingle (hmem.mp hm) hb).2.1]
    exact htempo.monotone hle
  obtain ⟨hlaid, hstarts⟩ := laid_foldl hplaces (show Laid _ _ [] from ⟨nofun, .nil⟩) (fun step hstep => by
    obtain ⟨n, hn, hstep⟩ := List.mem_filterMap.mp hstep
    exact (hsingle (hmem.mp hn) hstep).2.2) hsorted nofun
  have hvalue : (steps tempo path part).value = ((part.sortedNotes.filterMap fun n =>
      (noteStep tempo (periodBeats tempo part) path n).value).foldl addStep []).reverse := by
    simp only [steps, Outcome.value_bind, Outcome.value_collectSome, Outcome.value_pure,
      List.filterMap_map]
    rfl
  rw [hvalue, List.reverse_reverse]
  refine ⟨hlaid, fun x => ?_⟩
  rw [List.map_reverse, List.mem_reverse, hstarts]
  simp only [List.map_nil, List.not_mem_nil, false_or, List.mem_map, List.mem_filterMap]
  constructor
  · rintro ⟨step, ⟨n, hn, hstep⟩, rfl⟩
    obtain ⟨hplays, hstart, -⟩ := hsingle (hmem.mp hn) hstep
    exact ⟨n, hmem.mp hn, hplays, hstart.symm⟩
  · rintro ⟨n, hn, hplays, rfl⟩
    rcases noteStep_cases htempo hplaces path hn with ⟨-, step, hvalue, hstart, -⟩ | ⟨hnot, -⟩
    · exact ⟨step, ⟨n, hmem.mpr hn, hvalue⟩, hstart⟩
    · exact (hnot hplays).elim

end Part

theorem pattern_planPart (p : Performance Rat) (graph : GraphPlan Rat) (names : Names) (i : Nat)
    (name : String) (part : PlayedPart Rat) :
    ∃ symbol outlet mappings, (planPart p graph names i name part).value.1.pattern =
      if (steps p.tempo (entryPath "sequences" i) part).value.isEmpty then none
      else some ⟨name, symbol, outlet, mappings, rowsFrom (periodBeats p.tempo part) 0
        (steps p.tempo (entryPath "sequences" i) part).value, part.repetition.count?⟩ :=
  ⟨_, _, _, rfl⟩

theorem onsets_planPart (p : Performance Rat) (graph : GraphPlan Rat) (names : Names) (i : Nat)
    (name : String) {part : PlayedPart Rat} (htempo : StrictMono p.tempo.beatAtSeconds)
    (hplaces : Discernible (patternPlaces p.tempo part))
    (hnotes : ∀ n ∈ part.notes, 0 ≤ p.tempo.beatAtSeconds n.start) :
    (planPart p graph names i name part).value.1.onsets =
      (List.range (part.repetition.count?.getD 1)).flatMap fun pass : Nat =>
        (steps p.tempo (entryPath "sequences" i) part).value.map fun s =>
          pass * (periodBeats p.tempo part).getD 0 + s.start := by
  obtain ⟨symbol, outlet, mappings, hpattern⟩ := pattern_planPart p graph names i name part
  obtain ⟨hlaid, hstarts⟩ := laid_steps htempo hplaces (entryPath "sequences" i)
  generalize (steps p.tempo (entryPath "sequences" i) part).value = steps at *
  rw [PartPlan.onsets, hpattern]
  by_cases hempty : steps = []
  · simp [hempty]
  have hpositive : ∀ s ∈ steps, 0 ≤ s.start := by
    intro s hs
    obtain ⟨n, hn, -, hstart⟩ := (hstarts s.start).mp (List.mem_map_of_mem hs)
    exact hstart ▸ hnotes n hn
  have hplaced : ∀ s ∈ steps, s.Placed (patternPlaces p.tempo part) (periodBeats p.tempo part) :=
    fun s hs => hlaid.placed s (List.mem_reverse.mpr hs)
  have hzero : (0 : Rat) ∈ patternPlaces p.tempo part := List.mem_cons_self
  have hperiod : ∀ period ∈ periodBeats p.tempo part, period ∈ patternPlaces p.tempo part :=
    fun period hp => List.mem_cons_of_mem _ (List.mem_append_left _ (Option.mem_toList.mpr hp))
  have hend : ∀ period ∈ periodBeats p.tempo part, 0 ≤ period := by
    intro period hp
    obtain ⟨s, hs⟩ := List.exists_mem_of_ne_nil steps hempty
    exact (hpositive s hs).trans ((hplaced s hs).lasts.le.trans ((hplaced s hs).within period hp))
  have hrows (base : Rat) := onsets_rowsFrom hplaces hplaced hperiod
    (List.pairwise_reverse.mp hlaid.turns) hzero hpositive hend base
  rw [if_neg (by simpa using hempty), Option.toList_some, List.flatMap_singleton, Pattern.onsets]
  refine List.flatMap_congr fun pass hpass => ?_
  rw [(hrows _).1]
  refine List.map_congr_left fun s _ => ?_
  cases hrepetition : periodBeats p.tempo part with
  | some period =>
    have hbeats := (hrows 0).2 period hrepetition
    rw [hrepetition] at hbeats
    rw [hbeats, Option.getD_some]
    ring
  | none =>
    -- without a period there is one pass
    have hone : part.repetition.count? = some 1 := by
      cases hrep : part.repetition <;> simp [periodBeats, hrep, Repetition.period?] at hrepetition
      rfl
    obtain rfl : pass = 0 := by simpa [hone] using hpass
    simp

/-! ## Unrolled parts -/

theorem mem_heardOnsets {tempo : TempoMap Rat} {notes : List (PlayedNote Rat)} {x : Rat} :
    x ∈ heardOnsets tempo notes ↔
      ∃ n ∈ notes, (0 < n.duration ∧ n.pitches ≠ []) ∧ tempo.beatAtSeconds n.start = x := by
  simp [heardOnsets, and_assoc]

/-- A finite loop is heard where the notes of its passes are that start before the span is
over. -/
theorem mem_heardOnsets_finite {tempo : TempoMap Rat} {part : PlayedPart Rat} {span period x : Rat}
    (h : part.repetition = .finite span period) :
    x ∈ heardOnsets tempo part.expandedNotes ↔
      ∃ pass < part.repetition.count?.getD 1, ∃ n ∈ part.notes, soundsIn span period pass n ∧
        (0 < n.duration ∧ n.pitches ≠ []) ∧ tempo.beatAtSeconds (n.start + pass * period) = x := by
  have hexpanded : part.expandedNotes = (List.range (part.repetition.count?.getD 1)).flatMap
      (PlayedPart.passNotes part.notes span period) := by
    simp [PlayedPart.expandedNotes, h]
  rw [mem_heardOnsets, hexpanded]
  constructor
  · rintro ⟨m, hm, hheard, hx⟩
    obtain ⟨pass, hpass, hm⟩ := List.mem_flatMap.mp hm
    rw [passNotes_eq] at hm
    obtain ⟨⟨n, j⟩, hn, rfl⟩ := List.mem_map.mp hm
    obtain ⟨hn, hsounds⟩ := List.mem_filter.mp hn
    exact ⟨pass, List.mem_range.mp hpass, n, List.fst_mem_of_mem_zipIdx hn,
      of_decide_eq_true hsounds, hheard, hx⟩
  · rintro ⟨pass, hpass, n, hn, hsounds, hheard, hx⟩
    refine ⟨n.moved (n.start + pass * period) (pass * period), ?_, hheard, hx⟩
    refine List.mem_flatMap.mpr ⟨pass, List.mem_range.mpr hpass, ?_⟩
    obtain ⟨j, hj⟩ := List.mem_iff_getElem?.mp hn
    rw [passNotes_eq]
    exact List.mem_map.mpr ⟨(n, j), List.mem_filter.mpr
      ⟨List.mem_zipIdx_iff_getElem?.mpr hj, decide_eq_true hsounds⟩, rfl⟩

theorem pairwise_passes {places : List Rat} {period : Option Rat} {steps : List (Step Rat)}
    (hlaid : Laid places period steps.reverse) (hpositive : ∀ s ∈ steps, 0 ≤ s.start) {count : Nat}
    (hcount : period = none → count ≤ 1) :
    ((List.range count).flatMap fun pass : Nat => steps.map fun s =>
      (pass : Rat) * period.getD 0 + s.start).Pairwise (· < ·) := by
  have hplaced : ∀ s ∈ steps, s.Placed places period :=
    fun s hs => hlaid.placed s (List.mem_reverse.mpr hs)
  refine List.pairwise_flatMap.mpr ⟨fun pass _ => List.pairwise_map.mpr ?_, ?_⟩
  · refine (List.pairwise_reverse.mp hlaid.turns).imp_of_mem fun {a b} ha _ hturn => ?_
    have hlasts := (hplaced a ha).lasts
    linarith
  · refine List.pairwise_lt_range.imp_of_mem fun {j k} _ hk hlt x hx y hy => ?_
    obtain ⟨a, ha, rfl⟩ := List.mem_map.mp hx
    obtain ⟨b, hb, rfl⟩ := List.mem_map.mp hy
    cases period with
    | none =>
      have hone := hcount rfl
      have hk := List.mem_range.mp hk
      omega
    | some period =>
      have hstop := (hplaced a ha).within period rfl
      have hlasts := (hplaced a ha).lasts
      have hbefore := hpositive b hb
      have hperiod : 0 ≤ period := by linarith [hpositive a ha]
      have hnext : ((j : Rat) + 1) * period ≤ k * period :=
        mul_le_mul_of_nonneg_right (by exact_mod_cast hlt) hperiod
      rw [Option.getD_some]
      linarith

/-- Until a loop is over, the notes that its passes play are those of the unrolled part. -/
theorem plays_iff_heard {tempo : TempoMap Rat} (hmono : StrictMono tempo.beatAtSeconds)
    (hadd : ∀ x y, tempo.beatAtSeconds (x + y) = tempo.beatAtSeconds x + tempo.beatAtSeconds y)
    (hmul : ∀ (k : Nat) x, tempo.beatAtSeconds (k * x) = k * tempo.beatAtSeconds x)
    {part : PlayedPart Rat} {x : Rat} (hx : Within tempo part.repetition x) :
    (∃ pass < part.repetition.count?.getD 1, ∃ n ∈ part.notes,
        Plays tempo (periodBeats tempo part) n ∧
          pass * (periodBeats tempo part).getD 0 + tempo.beatAtSeconds n.start = x) ↔
      x ∈ heardOnsets tempo part.expandedNotes := by
  cases hrepetition : part.repetition with
  | once =>
    have hperiod : periodBeats tempo part = none := by
      simp [periodBeats, hrepetition, Repetition.period?]
    have hexpanded : part.expandedNotes = part.notes := by
      simp [PlayedPart.expandedNotes, hrepetition]
    simp [hperiod, hexpanded, mem_heardOnsets, Plays, Repetition.count?, and_assoc]
  | endless period =>
    have hperiod : periodBeats tempo part = some (tempo.beatAtSeconds period) := by
      simp [periodBeats, hrepetition, Repetition.period?]
    have hexpanded : part.expandedNotes = part.notes := by
      simp [PlayedPart.expandedNotes, hrepetition]
    rw [hrepetition] at hx
    rw [hperiod, hexpanded, mem_heardOnsets]
    constructor
    · rintro ⟨pass, hpass, n, hn, ⟨hlong, hpitches, -⟩, hstart⟩
      obtain rfl : pass = 0 := Nat.lt_one_iff.mp hpass
      exact ⟨n, hn, ⟨hlong, hpitches⟩, by simpa using hstart⟩
    · rintro ⟨n, hn, ⟨hlong, hpitches⟩, rfl⟩
      refine ⟨0, Nat.one_pos, n, hn, ⟨hlong, hpitches, fun p hp => ?_⟩, by simp⟩
      obtain rfl := Option.some.inj hp
      exact hx
  | finite span period =>
    have hperiod : periodBeats tempo part = some (tempo.beatAtSeconds period) := by
      simp [periodBeats, hrepetition, Repetition.period?]
    rw [hrepetition] at hx
    rw [mem_heardOnsets_finite hrepetition, hperiod, hrepetition, Option.getD_some]
    refine exists_congr fun pass => and_congr_right fun _ => exists_congr fun n =>
      and_congr_right fun _ => ?_
    rw [hadd, hmul, add_comm]
    constructor
    · rintro ⟨⟨hlong, hpitches, hearly⟩, rfl⟩
      have hbefore : tempo.beatAtSeconds (n.start + pass * period) < tempo.beatAtSeconds span := by
        rw [hadd, hmul]
        exact hx
      exact ⟨⟨hmono.lt_iff_lt.mp (hearly _ rfl), hmono.lt_iff_lt.mp hbefore⟩, ⟨hlong, hpitches⟩,
        rfl⟩
    · rintro ⟨⟨hearly, -⟩, ⟨hlong, hpitches⟩, rfl⟩
      refine ⟨⟨hlong, hpitches, fun p hp => ?_⟩, rfl⟩
      obtain rfl := Option.some.inj hp
      exact hmono hearly

/-- At a constant tempo, a pattern plays each onset once and in order, and until the loop is over
these are the onsets of the notes of the unrolled part that have a length and a pitch. -/
theorem mem_onsets_iff (s : Score Rat) {part : PlayedPart Rat} (hpart : part ∈ (perform s).parts)
    (hconstant : ∀ segment ∈ (perform s).tempo.later, segment.bpm = (perform s).tempo.first.bpm)
    (hplaces : Discernible (patternPlaces (perform s).tempo part)) (graph : GraphPlan Rat)
    (names : Names) (i : Nat) (name : String) :
    (planPart (perform s) graph names i name part).value.1.onsets.Pairwise (· < ·) ∧
    ∀ x, Within (perform s).tempo part.repetition x →
      (x ∈ (planPart (perform s) graph names i name part).value.1.onsets ↔
        x ∈ heardOnsets (perform s).tempo part.expandedNotes) := by
  have hlaid := laid_tempo s
  have hmono := TempoMap.beatAtSeconds_strictMono hlaid.linked
  have hlinear := hlaid.beatAtSeconds_linear hconstant
  have hnotes : ∀ n ∈ part.notes, 0 ≤ (perform s).tempo.beatAtSeconds n.start :=
    fun n hn => hlaid.beatAtSeconds_nonneg (mem_notes_perform hpart hn).1
  obtain ⟨hsteps, hstarts⟩ := laid_steps hmono hplaces (entryPath "sequences" i)
  rw [onsets_planPart (perform s) graph names i name hmono hplaces hnotes]
  refine ⟨pairwise_passes hsteps (fun step hstep => ?_) fun hperiod => ?_, fun x hx => ?_⟩
  · obtain ⟨n, hn, -, hstart⟩ := (hstarts step.start).mp (List.mem_map_of_mem hstep)
    exact hstart ▸ hnotes n hn
  · cases hrepetition : part.repetition <;>
      simp [periodBeats, hrepetition, Repetition.period?, Repetition.count?] at hperiod ⊢
  · rw [← plays_iff_heard hmono (fun a b => ?_) (fun k a => ?_) hx]
    · simp only [List.mem_flatMap, List.mem_range]
      refine exists_congr fun pass => and_congr_right fun _ => ?_
      have hmap : (steps (perform s).tempo (entryPath "sequences" i) part).value.map
          (fun step => (pass : Rat) * (periodBeats (perform s).tempo part).getD 0 + step.start) =
          ((steps (perform s).tempo (entryPath "sequences" i) part).value.map Step.start).map
            ((pass : Rat) * (periodBeats (perform s).tempo part).getD 0 + ·) := by
        rw [List.map_map]
        rfl
      rw [hmap, List.mem_map]
      simp only [hstarts]
      constructor
      · rintro ⟨_, ⟨n, hn, hplays, rfl⟩, rfl⟩
        exact ⟨n, hn, hplays, rfl⟩
      · rintro ⟨n, hn, hplays, rfl⟩
        exact ⟨_, ⟨n, hn, hplays, rfl⟩, rfl⟩
    · rw [hlinear, hlinear, hlinear]
      ring
    · rw [hlinear, hlinear]
      ring

/-- A loop of three beats with a period of two: the pattern starts its second pass again in full,
and the notes overlap and start together. -/
theorem mem_onsets_iff_beat :
    let kick : Note Rat := .sounding (.single (.name "C2")) (.seconds 0) (.seconds 1)
    let snare : Note Rat := .sounding (.single (.name "D2")) (.seconds (1 / 2)) (.seconds 1)
    let hat : Note Rat := .sounding (.single (.name "E2")) (.seconds (1 / 2)) (.seconds 2)
    let beat : Part Rat := ((Part.labelled "beat" (some [snare, kick, hat])).playing
      "kit").looped (.span (.seconds 3)) (some (.seconds 2))
    let song : Score Rat := { Score.empty with bpm := some 90, parts := some [beat] }
    let graph : GraphPlan Rat × Names := (planGraph .empty (perform song)).value
    ∃ part, part ∈ (perform song).parts ∧
      (∀ segment ∈ (perform song).tempo.later, segment.bpm = (perform song).tempo.first.bpm) ∧
      Discernible (patternPlaces (perform song).tempo part) ∧
      (planPart (perform song) graph.1 graph.2 0 "beat" part).value.1.onsets.Pairwise (· < ·) ∧
      ∀ x, Within (perform song).tempo part.repetition x →
        (x ∈ (planPart (perform song) graph.1 graph.2 0 "beat" part).value.1.onsets ↔
          x ∈ heardOnsets (perform song).tempo part.expandedNotes) := by
  intro kick snare hat beat song graph
  have hpart := getElem?_parts (s := song) (i := 0) (p := beat) rfl
  generalize hplayed : (playPart song (perform song).timeLine 0 beat).value = part at hpart
  have hmem := List.mem_of_getElem? hpart
  have hconstant : ∀ segment ∈ (perform song).tempo.later,
      segment.bpm = (perform song).tempo.first.bpm := by decide +kernel
  have hplaces : Discernible (patternPlaces (perform song).tempo part) := by
    rw [← hplayed]
    decide +kernel
  exact ⟨part, hmem, hconstant, hplaces,
    mem_onsets_iff song hmem hconstant hplaces graph.1 graph.2 0 "beat"⟩

def loopSong (start duration : Rat) (looping : LoopSetting Rat) : Score Rat :=
  let note : Note Rat := .sounding (.single (.name "C2")) (.seconds start) (.seconds duration)
  let beat : Part Rat := (Part.labelled "beat" (some [note])).playing "kit"
  { Score.empty with bpm := some 60, parts := some [beat.looped looping (some (.seconds 2))] }

/-- One of a pattern and the unrolled part has an onset that the other one lacks, at one tempo
and with a given loop. -/
def DisagreeAt (s : Score Rat) (repetition : Repetition Rat) (x : Rat) : Prop :=
  (perform s).tempo.later = [] ∧ ∃ part ∈ (perform s).parts, part.repetition = repetition ∧
    ¬ (x ∈ (planPart (perform s) (planGraph .empty (perform s)).value.1
      (planGraph .empty (perform s)).value.2 0 part.label part).value.1.onsets ↔
        x ∈ heardOnsets (perform s).tempo part.expandedNotes)

instance (s : Score Rat) (repetition : Repetition Rat) (x : Rat) :
    Decidable (DisagreeAt s repetition x) :=
  inferInstanceAs (Decidable (_ ∧ ∃ part ∈ (perform s).parts, _))

/-- A pattern plays its last pass beyond the span of the loop. It leaves out a note that starts
after the period of a loop without end, and one that is too short to be told apart. -/
theorem disagreeAt_loopSong :
    DisagreeAt (loopSong 1 (1 / 2) (.span (.seconds 3))) (.finite 3 2) 3 ∧
    DisagreeAt (loopSong 3 (1 / 2) (.flag true)) (.endless 2) 3 ∧
    DisagreeAt (loopSong 1 (1 / 2000000) (.flag true)) (.endless 2) 1 := by
  decide +kernel

end Partitura.Script
