import Partitura.Proofs.Performance.OnBeat

/-!
# Passes of loops

A part of a performance that loops has a period of at least a millisecond, and a finite loop
has a span of no more passes than are unrolled. So the number of its passes, which is the
quotient of span and period rounded up, misses no pass that begins before the span is over,
and what a finite loop is unrolled into are exactly the notes of each pass that belong to
the pass and start before the span is over, pass after pass.
-/

namespace Partitura

/-! ## How parts repeat -/

deriving instance DecidableEq for Repetition

theorem leastPeriod_eq : (leastPeriod : Rat) = 1 / 1000 := by decide +kernel

/-- A repetition as a performance has it: loops last, and finite ones are not too long. -/
def Repetition.Playable : Repetition Rat → Prop
  | once => True
  | endless period => 1 / 1000 ≤ period
  | finite span period => 1 / 1000 ≤ period ∧ 0 ≤ span ∧ span ≤ maxPasses * period

theorem le_of_isPeriod {period : Rat} (h : isPeriod period = true) : 1 / 1000 ≤ period := by
  have hlong : ¬period < leastPeriod := by
    simpa [isPeriod] using (Bool.and_eq_true_iff.mp h).2
  rw [← leastPeriod_eq]
  exact not_lt.mp hlong

/-- The span of a finite loop is cut where it would take too many passes. -/
theorem playable_finiteLoop (path : String) {span period : Rat} (hspan : 0 ≤ span)
    (hperiod : 1 / 1000 ≤ period) : (finiteLoop path span period).value.Playable := by
  have hpos : 0 < period := by linarith
  have hmost : (Scalar.ofInt maxPasses : Rat) = maxPasses := rfl
  unfold finiteLoop
  dsimp only
  rw [hmost]
  split
  · refine ⟨hperiod, mul_nonneg hpos.le (Nat.cast_nonneg _), ?_⟩
    rw [mul_comm]
  · next hfew =>
    refine ⟨hperiod, hspan, ?_⟩
    rw [← div_le_iff₀ hpos]
    exact Rat.le_ceil.trans (not_lt.mp hfew)

theorem playable_repetitionOf (line : TimeLine Rat) (path : String) (p : Part Rat) (stop : Rat) :
    (repetitionOf line path p stop).value.Playable := by
  have hendless (x : Rat) : (if isPeriod x then pure (.endless x) else do
      Outcome.note (shortLoop path x)
      pure .once : Outcome (Repetition Rat)).value.Playable := by
    split
    · next h => exact le_of_isPeriod h
    · trivial
  unfold repetitionOf
  split
  · trivial
  · dsimp only
    split <;> exact hendless _
  · trivial
  · simp only [Outcome.value_bind]
    split
    · next h => exact playable_finiteLoop path (position_nonneg _ _) (le_of_isPeriod h)
    · trivial

theorem mem_parts_perform {s : Score Rat} {part : PlayedPart Rat}
    (h : part ∈ (perform s).parts) :
    ∃ p i, part = (playPart s (perform s).timeLine i p).value := by
  rw [perform_parts] at h
  exact Outcome.mem_collect h

theorem playable_repetition {s : Score Rat} {part : PlayedPart Rat}
    (h : part ∈ (perform s).parts) : part.repetition.Playable := by
  obtain ⟨p, i, rfl⟩ := mem_parts_perform h
  exact playable_repetitionOf _ _ p _

theorem mem_notes_perform {s : Score Rat} {part : PlayedPart Rat} {n : PlayedNote Rat}
    (h : part ∈ (perform s).parts) (hn : n ∈ part.notes) : 0 ≤ n.start ∧ 0 ≤ n.duration := by
  obtain ⟨p, i, rfl⟩ := mem_parts_perform h
  obtain ⟨written, j, rfl⟩ := Outcome.mem_collect
    (show n ∈ (Outcome.collect (p.noteList.zipIdx.map fun (n, j) =>
      playNote (perform s).timeLine (entryPath "sequences" i) j n)).value from hn)
  exact ⟨start_nonneg _ _ j written, span_nonneg _ _ written.duration⟩

/-! ## The number of passes -/

/-- The number of passes of a finite loop: those that begin before the span is over, at least
one. -/
theorem count?_finite {span period : Rat} (hperiod : 0 < period)
    (hspan : span ≤ maxPasses * period) :
    (Repetition.finite span period).count? = some (max 1 (span / period).ceil.toNat) := by
  have hquotient : span / period ≤ maxPasses := (div_le_iff₀ hperiod).mpr hspan
  have hceil : (span / period).ceil ≤ (maxPasses : Int) :=
    Rat.ceil_le_iff.mpr (by exact_mod_cast hquotient)
  have hclamp : Scalar.clampTo 1 (Scalar.ofInt maxPasses) (Scalar.ceil (span / period)) =
      ((max 1 (span / period).ceil : Int) : Rat) := by
    show Scalar.clampTo ((1 : Int) : Rat) ((maxPasses : Int) : Rat) ((span / period).ceil : Rat) = _
    rw [clampTo_eq (by decide), ← Int.cast_min, ← Int.cast_max, min_eq_right hceil]
  have hmost : (maxPasses : Int) = 4096 := rfl
  unfold Repetition.count?
  dsimp only
  rw [hclamp, Number.word_intCast]
  congr 1
  omega

theorem lt_count {span period : Rat} {pass : Nat} (hperiod : 0 < period)
    (hpass : pass * period < span) : pass < max 1 (span / period).ceil.toNat := by
  have hquotient : ((pass : Int) : Rat) < span / period := by
    rw [lt_div_iff₀ hperiod]
    exact_mod_cast hpass
  have hceil : (pass : Int) < (span / period).ceil := Rat.lt_ceil_iff.mpr hquotient
  omega

/-! ## Unrolled loops -/

/-- Whether a note sounds in a pass of a finite loop: it starts in the pass, and before the
span of the loop is over. -/
def soundsIn (span period : Rat) (pass : Nat) (n : PlayedNote Rat) : Prop :=
  n.start < period ∧ n.start + pass * period < span

instance (span period : Rat) (pass : Nat) : DecidablePred (soundsIn span period pass) :=
  fun n => inferInstanceAs (Decidable (n.start < period ∧ n.start + pass * period < span))

/-- The passes and the places of the notes that a loop is unrolled into. -/
structure UnrolledAs (notes : List (PlayedNote Rat)) (span period : Rat)
    (onsets : List (Nat × Nat)) (unrolled : List (PlayedNote Rat)) : Prop where
  moved : List.Forall₂ (fun onset m => ∃ n, notes[onset.2]? = some n ∧
    m = { n with
      start := n.start + onset.1 * period
      modulations := n.modulations.map fun x => { x with time := x.time + onset.1 * period } })
    onsets unrolled
  complete : ∀ pass j, (pass, j) ∈ onsets ↔ ∃ n, notes[j]? = some n ∧ soundsIn span period pass n
  ordered : onsets.Pairwise fun a b => a.1 < b.1 ∨ a.1 = b.1 ∧ a.2 < b.2

section Unrolling

variable (notes : List (PlayedNote Rat)) (span period : Rat) (pass : Nat)

def placesIn : List Nat :=
  (notes.zipIdx.filter fun x => decide (soundsIn span period pass x.1)).map Prod.snd

theorem mem_placesIn {j : Nat} : j ∈ placesIn notes span period pass ↔
    ∃ n, notes[j]? = some n ∧ soundsIn span period pass n := by
  simp [placesIn, List.mem_zipIdx_iff_getElem?, and_comm]

theorem ordered_placesIn : (placesIn notes span period pass).Pairwise (· < ·) := by
  have hordered : (notes.zipIdx.map Prod.snd).Pairwise (· < ·) := by
    rw [List.zipIdx_map_snd]
    exact List.pairwise_lt_range'
  exact List.pairwise_map.mpr ((List.pairwise_map.mp hordered).filter _)

theorem passNotes_eq : PlayedPart.passNotes notes span period pass =
    (notes.zipIdx.filter fun x => decide (soundsIn span period pass x.1)).map fun x =>
      x.1.moved (x.1.start + pass * period) (pass * period) := by
  have hoffset : (Scalar.ofInt pass : Rat) * period = pass * period := rfl
  unfold PlayedPart.passNotes
  rw [hoffset]
  dsimp only
  conv_lhs => rw [← List.zipIdx_map_fst 0 notes, List.filterMap_map]
  rw [← List.filterMap_eq_map, List.filterMap_filter]
  refine List.filterMap_congr fun x _ => ?_
  by_cases hsounds : soundsIn span period pass x.1
  · obtain ⟨hpass, hspan⟩ := hsounds
    simp [soundsIn, hpass, hspan]
  · have hout : span ≤ x.1.start + pass * period ∨ period ≤ x.1.start := by
      simpa [soundsIn, imp_iff_or_not, or_comm] using hsounds
    simp [hsounds, hout]

theorem length_passNotes_le :
    (PlayedPart.passNotes notes span period pass).length ≤ notes.length :=
  List.length_filterMap_le _ _

theorem forall₂_passNotes : List.Forall₂ (fun onset m => ∃ n, notes[onset.2]? = some n ∧
      m = { n with
        start := n.start + onset.1 * period
        modulations := n.modulations.map fun x => { x with time := x.time + onset.1 * period } })
    ((placesIn notes span period pass).map (pass, ·))
    (PlayedPart.passNotes notes span period pass) := by
  rw [passNotes_eq, placesIn, List.map_map, List.forall₂_map_left_iff, List.forall₂_map_right_iff,
    List.forall₂_same]
  intro x hx
  exact ⟨x.1, List.mem_zipIdx_iff_getElem?.mp (List.mem_of_mem_filter hx), rfl⟩

end Unrolling

theorem expandedNotes_finite {part : PlayedPart Rat} {span period : Rat}
    (h : part.repetition = .finite span period) (hperiod : 0 < period)
    (hspan : span ≤ maxPasses * period) :
    part.expandedNotes = (List.range (max 1 (span / period).ceil.toNat)).flatMap
      (PlayedPart.passNotes part.notes span period) := by
  simp [PlayedPart.expandedNotes, h, count?_finite hperiod hspan]

/-- A finite loop is unrolled pass after pass, each pass in the order of the notes. What it is
unrolled into are the notes that sound in some pass, all passes without end being counted, and
no more than the passes that are unrolled at most can hold. -/
theorem unrolledAs_expandedNotes (s : Score Rat) {part : PlayedPart Rat} {span period : Rat}
    (hpart : part ∈ (perform s).parts) (h : part.repetition = .finite span period) :
    (∃ onsets, UnrolledAs part.notes span period onsets part.expandedNotes) ∧
      part.expandedNotes.length ≤ maxPasses * part.notes.length := by
  have hplayable := playable_repetition hpart
  rw [h] at hplayable
  obtain ⟨hleast, -, hspan⟩ := hplayable
  have hperiod : 0 < period := by linarith
  have hexpanded := expandedNotes_finite h hperiod hspan
  refine ⟨⟨(List.range (max 1 (span / period).ceil.toNat)).flatMap fun pass =>
    (placesIn part.notes span period pass).map (pass, ·), ?_, fun pass j => ?_, ?_⟩, ?_⟩
  · rw [hexpanded]
    refine List.rel_flatMap (R := Eq) (List.forall₂_refl _) ?_
    rintro pass _ rfl
    exact forall₂_passNotes part.notes span period pass
  · have hnotes {n : PlayedNote Rat} (hn : part.notes[j]? = some n) : 0 ≤ n.start :=
      (mem_notes_perform hpart (List.mem_of_getElem? hn)).1
    simp only [List.mem_flatMap, List.mem_range, List.mem_map, mem_placesIn, Prod.mk.injEq]
    constructor
    · rintro ⟨_, -, _, hsounds, rfl, rfl⟩
      exact hsounds
    · rintro ⟨n, hn, hin, hbefore⟩
      -- A note that sounds in a pass starts no earlier than the pass begins.
      have hbegins : pass * period < span := by linarith [hnotes hn]
      exact ⟨pass, lt_count hperiod hbegins, j, ⟨n, hn, hin, hbefore⟩, rfl, rfl⟩
  · refine List.pairwise_flatMap.mpr ⟨fun pass _ => ?_, ?_⟩
    · exact List.pairwise_map.mpr ((ordered_placesIn part.notes span period pass).imp
        fun hlt => .inr ⟨rfl, hlt⟩)
    · refine List.pairwise_lt_range.imp fun hlt a ha b hb => .inl ?_
      obtain ⟨_, -, rfl⟩ := List.mem_map.mp ha
      obtain ⟨_, -, rfl⟩ := List.mem_map.mp hb
      exact hlt
  · have hquotient : span / period ≤ maxPasses := (div_le_iff₀ hperiod).mpr hspan
    have hceil : (span / period).ceil ≤ (maxPasses : Int) :=
      Rat.ceil_le_iff.mpr (by exact_mod_cast hquotient)
    have hcount : max 1 (span / period).ceil.toNat ≤ maxPasses := by
      have hmost : maxPasses = 4096 := rfl
      omega
    calc part.expandedNotes.length
        ≤ max 1 (span / period).ceil.toNat * part.notes.length := by
          rw [hexpanded, List.length_flatMap]
          refine (List.sum_le_card_nsmul _ part.notes.length ?_).trans (by simp)
          exact List.forall_mem_map.mpr fun pass _ =>
            length_passNotes_le part.notes span period pass
      _ ≤ maxPasses * part.notes.length := Nat.mul_le_mul_right _ hcount

/-- A loop of three seconds with a period of two: the second pass is cut after its first note,
and a note beyond the period is in no pass. -/
theorem unrolledAs_expandedNotes_beat :
    let kick : Note Rat := (Note.sounding (.single (.name "C2")) (.seconds 0)
      (.seconds 1)).withModulation (.ofBend 1 (.seconds (1 / 2)))
    let snare : Note Rat := .sounding (.single (.name "D2")) (.seconds (5 / 4)) (.seconds 1)
    let late : Note Rat := .sounding (.single (.name "E2")) (.seconds (5 / 2)) (.seconds 1)
    let beat : Part Rat := ((Part.labelled "beat" (some [kick, snare, late])).playing
      "kit").looped (.span (.seconds 3)) (some (.seconds 2))
    let song : Score Rat := { Score.empty with bpm := some 60, parts := some [beat] }
    ∃ part, part ∈ (perform song).parts ∧ part.repetition = .finite 3 2 ∧
      part.expandedNotes.map PlayedNote.start = [0, 5 / 4, 2] ∧
      (∃ onsets, UnrolledAs part.notes 3 2 onsets part.expandedNotes) ∧
      part.expandedNotes.length ≤ maxPasses * part.notes.length := by
  intro kick snare late beat song
  have hpart := getElem?_parts (s := song) (i := 0) (p := beat) rfl
  generalize hplayed : (playPart song (perform song).timeLine 0 beat).value = part at hpart
  have hmem := List.mem_of_getElem? hpart
  have hrepetition : part.repetition = .finite 3 2 := by
    rw [← hplayed]
    decide +kernel
  have hstarts : part.expandedNotes.map PlayedNote.start = [0, 5 / 4, 2] := by
    rw [← hplayed]
    decide +kernel
  exact ⟨part, hmem, hrepetition, hstarts, unrolledAs_expandedNotes song hmem hrepetition⟩

end Partitura
