import Partitura.Proofs.Number.Exact
import Partitura.Proofs.Performance.Faithful
import Partitura.Proofs.Time.Tempo

/-!
# Musical times keep their beats

A time in beats is placed in seconds through the tempo map, and a length in beats is
measured from the beat that its note starts at. Over exact numbers nothing is lost on the
way: read back through the same map, a note starts at the beat that is written and stops as
many beats later as are written, however often the tempo changes in between. What is
placed before the start is moved to it, and no beat from zero on is.
-/

namespace Partitura

/-! ## Exact maps -/

namespace TempoMap

variable {m : TempoMap Rat} {x : Rat}

theorem Laid.secondsAtBeat_zero (h : m.Laid) : m.secondsAtBeat 0 = 0 := by
  have hfirst : m.secondsAtBeat m.first.beat = m.first.seconds := secondsAtBeat_first h.linked
  rwa [h.starts.1, h.starts.2] at hfirst

theorem Laid.secondsAtBeat_nonneg (h : m.Laid) (hx : 0 ≤ x) : 0 ≤ m.secondsAtBeat x := by
  rw [← h.secondsAtBeat_zero]
  exact (secondsAtBeat_strictMono h.linked).monotone hx

theorem Laid.beatAtSeconds_nonneg (h : m.Laid) (hx : 0 ≤ x) : 0 ≤ m.beatAtSeconds x := by
  have hzero : m.beatAtSeconds 0 = 0 := by
    conv_lhs => rw [← h.secondsAtBeat_zero]
    exact beatAtSeconds_secondsAtBeat h.linked 0
  rw [← hzero]
  exact (beatAtSeconds_strictMono h.linked).monotone hx

theorem Laid.beatAtSeconds_position (h : m.Laid) (hx : 0 ≤ x) :
    m.beatAtSeconds (Scalar.maxOf (m.position (.beats x)) 0) = x := by
  have hplace : m.position (.beats x) = m.secondsAtBeat x := rfl
  rw [maxOf_eq_max, hplace, max_eq_left (h.secondsAtBeat_nonneg hx)]
  exact beatAtSeconds_secondsAtBeat h.linked x

theorem Laid.beatAtSeconds_span (h : m.Laid) (start : Rat) (hx : 0 ≤ x) :
    m.beatAtSeconds (start + Scalar.maxOf (m.span start (.beats x)) 0) =
      m.beatAtSeconds start + x := by
  have hmono := secondsAtBeat_strictMono h.linked
  have hstart : m.secondsAtBeat (m.beatAtSeconds start) = start :=
    secondsAtBeat_beatAtSeconds h.linked start
  have hle : start ≤ m.secondsAtBeat (m.beatAtSeconds start + x) := by
    conv_lhs => rw [← hstart]
    exact hmono.monotone (le_add_of_nonneg_right hx)
  have hspan : m.span start (.beats x) = m.secondsAtBeat (m.beatAtSeconds start + x) - start := rfl
  rw [maxOf_eq_max, hspan, max_eq_left (sub_nonneg.mpr hle), add_sub_cancel]
  exact beatAtSeconds_secondsAtBeat h.linked _

end TempoMap

/-! ## Notes -/

/-- A time that stands for so many beats, from zero on. -/
def IsBeats (quarters : Rat) (t : Option (WrittenTime Rat)) (x : Rat) : Prop :=
  t.bind (WrittenTime.amount? quarters) = some (.beats x) ∧ 0 ≤ x

theorem baseTempo_pos (bpm : Option Rat) : 0 < (baseTempo bpm).value := by
  have husual : (0 : Rat) < Scalar.ofInt defaultTempo := by decide
  unfold baseTempo
  split
  · exact husual
  · split
    · rename_i hpos
      exact of_decide_eq_true (Bool.and_eq_true_iff.mp hpos).2
    · exact husual

theorem laid_tempo (s : Score Rat) : (perform s).tempo.Laid :=
  TempoMap.laid_ofPoints (baseTempo_pos s.bpm) _

section Places

variable {line : TimeLine Rat} {t : Option (WrittenTime Rat)} {x : Rat}

theorem value_position_beats (h : IsBeats line.quarters t x) (path : String) :
    (line.position path t).value = Scalar.maxOf (line.tempo.position (.beats x)) 0 := by
  obtain ⟨t, rfl, ht⟩ := Option.bind_eq_some_iff.mp h.1
  simp [TimeLine.position, TimeLine.amount?, ht]

theorem value_span_beats (h : IsBeats line.quarters t x) (path : String) (start : Rat) :
    (line.span path start t).value = Scalar.maxOf (line.tempo.span start (.beats x)) 0 := by
  obtain ⟨t, rfl, ht⟩ := Option.bind_eq_some_iff.mp h.1
  simp [TimeLine.span, TimeLine.amount?, ht]

theorem position_nonneg (path : String) (t : Option (WrittenTime Rat)) :
    0 ≤ (line.position path t).value := by
  have hmax (y : Rat) : 0 ≤ Scalar.maxOf y 0 := by
    rw [maxOf_eq_max]
    exact le_max_right y 0
  cases t with
  | none => exact le_rfl
  | some t =>
    rw [value_position]
    unfold TimeLine.place
    split
    · exact hmax _
    · exact le_rfl

theorem span_nonneg (path : String) (start : Rat) (t : Option (WrittenTime Rat)) :
    0 ≤ (line.span path start t).value := by
  simp only [TimeLine.span, Outcome.value_bind]
  split
  · rw [Outcome.value_pure, maxOf_eq_max]
    exact le_max_right _ _
  · exact le_rfl

end Places

section Notes

variable {line : TimeLine Rat} {n : Note Rat} {x : Rat} (hline : line.tempo.Laid) (path : String)
  (i : Nat)

include hline

theorem beat_start (h : IsBeats line.quarters n.time x) :
    line.tempo.beatAtSeconds (playNote line path i n).value.start = x := by
  show line.tempo.beatAtSeconds (line.position _ n.time).value = x
  rw [value_position_beats h]
  exact hline.beatAtSeconds_position h.2

theorem beat_stop (h : IsBeats line.quarters n.duration x) :
    line.tempo.beatAtSeconds (playNote line path i n).value.stop =
      line.tempo.beatAtSeconds (playNote line path i n).value.start + x := by
  generalize hstart : (playNote line path i n).value.start = start
  have hstop : (playNote line path i n).value.stop =
      start + (line.span (path ++ "." ++ entryPath "notes" i ++ ".duration") start
        n.duration).value := by rw [← hstart]; rfl
  rw [hstop, value_span_beats h]
  exact hline.beatAtSeconds_span start h.2

end Notes

theorem start_nonneg (line : TimeLine Rat) (path : String) (i : Nat) (n : Note Rat) :
    0 ≤ (playNote line path i n).value.start := position_nonneg _ n.time

theorem stop_nonneg (line : TimeLine Rat) (path : String) (i : Nat) (n : Note Rat) :
    0 ≤ (playNote line path i n).value.stop :=
  add_nonneg (start_nonneg line path i n) (span_nonneg _ _ n.duration)

/-! ## Entries of performances -/

theorem getElem?_parts {s : Score Rat} {i : Nat} {p : Part Rat} (h : s.partList[i]? = some p) :
    (perform s).parts[i]? = some (playPart s (perform s).timeLine i p).value := by
  rw [perform_parts, Outcome.getElem?_collect, h]
  rfl

theorem getElem?_notes (s : Score Rat) (line : TimeLine Rat) (i : Nat) {p : Part Rat} {j : Nat}
    {n : Note Rat} (h : p.noteList[j]? = some n) :
    (playPart s line i p).value.notes[j]? =
      some (playNote line (entryPath "sequences" i) j n).value := by
  have hnotes : (playPart s line i p).value.notes = (Outcome.collect
      (p.noteList.zipIdx.map fun (n, j) =>
        playNote line (entryPath "sequences" i) j n)).value := rfl
  rw [hnotes, Outcome.getElem?_collect, h]
  rfl

theorem repetition_playPart (s : Score Rat) (line : TimeLine Rat) (i : Nat) {p : Part Rat}
    (h : p.looping.isOff = true) : (playPart s line i p).value.repetition = .once := by
  have hloop : p.looping = .flag false := by
    cases hp : p.looping with
    | flag on => simpa [hp, LoopSetting.isOff] using h
    | span t => simp [hp, LoopSetting.isOff] at h
  simp [playPart, repetitionOf, hloop]

end Partitura
