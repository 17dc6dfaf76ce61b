import Partitura.Proofs.StableSort
import Partitura.Proofs.Time.Breakpoints

/-!
# The tempo in force

Breakpoints in seconds make a step function: at a second the last one counts that comes no
later, and of those at one time the last one of the list. The map gets there from a list in any
order: it sorts the list stably, and a breakpoint that is not told apart from the last stretch
gives that stretch its tempo.

Zero is the start of the first stretch, and no breakpoint that is not told apart from zero starts
another one. So a breakpoint that comes so early counts from zero on.
-/

namespace Partitura

/-- A point that counts at a second. A time that is not told apart from zero counts as zero. -/
def TempoPoint.Counts (second t : Rat) (p : TempoPoint Rat) : Prop :=
  0 < p.bpm ∧ (second ≤ t ∨ second < 1 / 1000000000)

instance (second t : Rat) : DecidablePred (TempoPoint.Counts second t) :=
  fun p => inferInstanceAs (Decidable (0 < p.bpm ∧ (second ≤ t ∨ second < 1 / 1000000000)))

/-- The tempo of the last point in the order of time that counts, equal times in the order of the
list, or the base tempo. -/
def StepsTo (points : List (TempoPoint Rat)) (second : TempoPoint Rat → Rat) (base t bpm : Rat) :
    Prop :=
  (∃ before p after, points = before ++ p :: after ∧ p.Counts (second p) t ∧
    (∀ q ∈ before, q.Counts (second q) t → second q ≤ second p) ∧
    (∀ q ∈ after, q.Counts (second q) t → second q < second p) ∧ bpm = p.bpm) ∨
  (∀ p ∈ points, ¬p.Counts (second p) t) ∧ bpm = base

namespace TempoMap

section Insert

variable {m : TempoMap Rat} {t : Rat}

def landing (m : TempoMap Rat) (a : Amount Rat) : Rat :=
  if m.position a < m.last.seconds + 1 / 1000000000 then m.last.seconds else m.position a

theorem landing_seconds (m : TempoMap Rat) (s : Rat) : m.landing (.seconds s) =
    if s < m.last.seconds + 1 / 1000000000 then m.last.seconds else s := rfl

theorem tempoAt_of_last_le (h : m.last.seconds ≤ t) : m.tempoAt t = m.last.bpm := by
  have hfind : m.segments.reverse.find? (fun seg => decide (seg.seconds ≤ t)) = some m.last := by
    rw [segments_eq, List.reverse_concat]
    exact List.find?_cons_of_pos (decide_eq_true h)
  rw [tempoAt, segmentAtSeconds, lastWhere, hfind]
  rfl

theorem tempoAt_insert (hm : m.Laid) (ht : 0 ≤ t) {p : Amount Rat × Rat} (hpos : 0 < p.2) :
    (m.insert p).tempoAt t = if m.landing p.1 ≤ t then p.2 else m.tempoAt t := by
  have hfirst : decide (m.first.seconds ≤ t) = true := by
    rw [hm.starts.2]
    exact decide_eq_true ht
  rcases insert_cases (m := m) hpos with ⟨hnear, heq⟩ | ⟨hfar, beat, -, heq⟩
  · rw [landing, if_pos hnear, heq]
    by_cases hle : m.last.seconds ≤ t
    · rw [if_pos hle, tempoAt_of_last_le, last_retune]
      rw [last_retune]
      exact hle
    · rw [if_neg hle, tempoAt, segmentAtSeconds,
        lastWhere_congr (segments_eq m) (segments_retune m p.2) _ _ hfirst]
      · rfl
      · simpa using hle
      · simpa using hle
  · rw [landing, if_neg hfar.not_gt, heq]
    by_cases hle : m.position p.1 ≤ t
    · rw [if_pos hle, tempoAt_of_last_le, last_append]
      rw [last_append]
      exact hle
    · rw [if_neg hle, tempoAt, segmentAtSeconds,
        lastWhere_congr (List.append_nil _).symm (segments_append m.first m.later _) _ _ hfirst]
      · rfl
      · simp
      · simpa using hle

end Insert

section Ordered

variable {second : TempoPoint Rat → Rat} {base t : Rat}

def placed (second : TempoPoint Rat → Rat) (p : TempoPoint Rat) : Amount Rat × Rat :=
  (.seconds (second p), p.bpm)

def Clear (second : TempoPoint Rat → Rat) (p q : TempoPoint Rat) : Prop :=
  second p = second q ∨ 1 / 1000000000 ≤ |second p - second q|

theorem landing_le_iff (base : Rat) (ht : 0 ≤ t) {points : List (TempoPoint Rat)} {p : TempoPoint Rat}
    (hle : ∀ q ∈ points, second q ≤ second p) (hclear : ∀ q ∈ points, Clear second q p) :
    (ofOrdered base (points.map (placed second))).landing (.seconds (second p)) ≤ t ↔
      second p ≤ t ∨ second p < 1 / 1000000000 := by
  rcases last_ofOrdered base (points.map (placed second)) with ⟨-, hzero⟩ | ⟨hfar, a, ha, hlast⟩
  · rw [landing_seconds, hzero, zero_add]
    by_cases hnear : second p < 1 / 1000000000
    · rw [if_pos hnear]
      exact iff_of_true ht (.inr hnear)
    · rw [if_neg hnear, or_iff_left hnear]
  · obtain ⟨q, hq, rfl⟩ := List.mem_map.mp ha
    have hseconds : (ofOrdered base (points.map (placed second))).last.seconds = second q := hlast
    rw [hseconds] at hfar
    have hlate : ¬second p < 1 / 1000000000 := (hfar.trans (hle q hq)).not_gt
    rw [landing_seconds, hseconds, or_iff_left hlate]
    by_cases hnear : second p < second q + 1 / 1000000000
    · have hsame : second q = second p := by
        refine (hclear q hq).resolve_right fun hapart => ?_
        rw [abs_sub_comm, abs_of_nonneg (sub_nonneg.mpr (hle q hq))] at hapart
        linarith
      rw [if_pos hnear, hsame]
    · rw [if_neg hnear]

theorem tempoAt_ofOrdered (hbase : 0 < base) (ht : 0 ≤ t) {points : List (TempoPoint Rat)}
    (horder : points.Pairwise fun p q => second p ≤ second q ∧ Clear second p q) :
    (ofOrdered base (points.map (placed second))).tempoAt t =
      ((points.filter fun p => decide (p.Counts (second p) t)).getLast?.map
        TempoPoint.bpm).getD base := by
  induction points using List.reverseRecOn with
  | nil => exact tempoAt_of_last_le ht
  | append_singleton points p ih =>
    obtain ⟨hpoints, -, hp⟩ := List.pairwise_append.mp horder
    have hbefore (q) (hq : q ∈ points) := hp q hq p (List.mem_singleton_self p)
    rw [List.map_append, List.map_singleton, ofOrdered_concat, List.filter_append]
    by_cases hpos : 0 < p.bpm
    · have hlanding := landing_le_iff base ht (fun q hq => (hbefore q hq).1)
        (fun q hq => (hbefore q hq).2)
      rw [tempoAt_insert (laid_ofOrdered hbase _) ht hpos]
      by_cases hcounts : p.Counts (second p) t
      · rw [List.filter_singleton, decide_eq_true hcounts, cond_true, List.getLast?_concat]
        exact if_pos (hlanding.mpr hcounts.2)
      · rw [List.filter_singleton, decide_eq_false hcounts, cond_false, List.append_nil, ← ih hpoints]
        exact if_neg fun h => hcounts ⟨hpos, hlanding.mp h⟩
    · have hcounts : ¬p.Counts (second p) t := fun h => hpos h.1
      rw [insert_of_not_pos hpos, ih hpoints, List.filter_singleton, decide_eq_false hcounts,
        cond_false, List.append_nil]

theorem ofWritten_eq {points : List (TempoPoint Rat)}
    (hsecond : ∀ p ∈ points, p.time.amount? 4 = some (.seconds (second p))) :
    ofWritten base 4 points =
      ofOrdered base ((points.mergeSort fun p q => decide (second p ≤ second q)).map
        (placed second)) := by
  have hread : (points.filterMap fun p => (p.time.amount? 4).map fun a => (a, p.bpm)) =
      points.map (placed second) := by
    rw [← List.filterMap_eq_map']
    apply List.filterMap_congr
    intro p hp
    rw [hsecond p hp]
    rfl
  rw [ofWritten, hread, ofPoints_eq, layingOrder, List.map_mergeSort]
  intro p _ q _
  rfl

end Ordered

end TempoMap

/-- The tempo at a second is that of the last point that counts there. -/
theorem stepsTo_tempoAt {base t : Rat} (hbase : 0 < base) (ht : 0 ≤ t)
    {points : List (TempoPoint Rat)} {second : TempoPoint Rat → Rat}
    (hsecond : ∀ p ∈ points, p.time.amount? 4 = some (.seconds (second p)))
    (hclear : ∀ p ∈ points, ∀ q ∈ points, TempoMap.Clear second p q) :
    StepsTo points second base t (tempoAt points base t) := by
  have horder := (pairwise_mergeSort_le second points).imp_of_mem
    (S := fun p q => second p ≤ second q ∧ TempoMap.Clear second p q) fun {p q} hp hq hle =>
      ⟨hle, hclear p (List.mem_mergeSort.mp hp) q (List.mem_mergeSort.mp hq)⟩
  rw [tempoAt, TempoMap.ofWritten_eq hsecond, TempoMap.tempoAt_ofOrdered hbase ht horder]
  by_cases hcounts : ∃ p ∈ points, decide (p.Counts (second p) t) = true
  · obtain ⟨before, p, after, hsplit, hp, hbefore, hafter, hlast⟩ :=
      exists_getLast?_mergeSort_le second hcounts
    refine .inl ⟨before, p, after, hsplit, of_decide_eq_true hp, ?_, ?_, ?_⟩
    · exact fun q hq hcounts => hbefore q hq (decide_eq_true hcounts)
    · exact fun q hq hcounts => hafter q hq (decide_eq_true hcounts)
    · rw [hlast]
      rfl
  · have hnone : ∀ p ∈ points, ¬p.Counts (second p) t :=
      fun p hp hcount => hcounts ⟨p, hp, decide_eq_true hcount⟩
    refine .inr ⟨hnone, ?_⟩
    rw [List.filter_eq_nil_iff.mpr]
    · rfl
    · exact fun p hp hcount => hnone p (List.mem_mergeSort.mp hp) (of_decide_eq_true hcount)

/-- Points in no order, two of them at zero and one without a tempo. -/
theorem stepsTo_tempoAt_unordered :
    let points : List (TempoPoint Rat) :=
      [⟨.seconds (5 / 2), 90⟩, ⟨.seconds 0, 100⟩, ⟨.seconds 1, -30⟩, ⟨.seconds 0, 60⟩]
    let second (p : TempoPoint Rat) : Rat := p.time.atTempo 60 4
    (0 : Rat) < 120 ∧ (0 : Rat) ≤ 1 ∧
      (∀ p ∈ points, p.time.amount? 4 = some (.seconds (second p))) ∧
      (∀ p ∈ points, ∀ q ∈ points, TempoMap.Clear second p q) ∧
      StepsTo points second 120 1 (tempoAt points 120 1) := by
  intro points second
  have hsecond : ∀ p ∈ points, p.time.amount? 4 = some (.seconds (second p)) := by decide +kernel
  have hclear : ∀ p ∈ points, ∀ q ∈ points, TempoMap.Clear second p q := by
    unfold TempoMap.Clear
    decide +kernel
  exact ⟨by norm_num, by norm_num, hsecond, hclear,
    stepsTo_tempoAt (by norm_num) (by norm_num) hsecond hclear⟩

/-- A point after zero gives its tempo at zero already. -/
theorem tempoAt_early :
    let points : List (TempoPoint Rat) := [⟨.seconds (1 / 2000000000), 90⟩]
    let second (p : TempoPoint Rat) : Rat := p.time.atTempo 60 4
    (∀ p ∈ points, p.time.amount? 4 = some (.seconds (second p)) ∧ 0 ≤ second p) ∧
      (∀ p ∈ points, ∀ q ∈ points, TempoMap.Clear second p q) ∧
      (∀ p ∈ points, ¬second p ≤ 0) ∧ tempoAt points 120 0 = 90 := by
  intro points second
  have hsecond : ∀ p ∈ points, p.time.amount? 4 = some (.seconds (second p)) ∧ 0 ≤ second p := by
    decide +kernel
  have hclear : ∀ p ∈ points, ∀ q ∈ points, TempoMap.Clear second p q := by
    unfold TempoMap.Clear
    decide +kernel
  refine ⟨hsecond, hclear, by decide +kernel, ?_⟩
  rw [tempoAt, TempoMap.ofWritten_eq fun p hp => (hsecond p hp).1, List.mergeSort_singleton]
  decide +kernel

end Partitura
