import Mathlib.Algebra.Order.Field.Rat
import Mathlib.Data.List.Chain
import Mathlib.Data.List.Induction
import Mathlib.Order.Monotone.Basic
import Mathlib.Tactic.FieldSimp
import Mathlib.Tactic.Linarith
import Mathlib.Tactic.Ring
import Partitura.Proofs.Number.Exact
import Partitura.Time.Tempo

/-!
# Exact tempo maps

Over exact numbers every tempo map that is built from breakpoints is steady: its
stretches follow each other without a gap or an overlap, and each has a positive
tempo. On a steady map beats and seconds are two names for the same places, so
the two conversions increase strictly and undo each other.

A conversion looks for its stretch from the end of the map. Read from the start
it is a recursion: a place before the second stretch lies on the first one, any
other on the map without the first one. The laws are proved along that recursion,
for maps that start anywhere, since the rest of a map does not start at zero.
-/

namespace Partitura

namespace TempoSegment

/-- The next stretch starts later, where this one has led to. -/
structure Joins (a b : TempoSegment Rat) : Prop where
  beat_lt : a.beat < b.beat
  seconds_eq : b.seconds = a.seconds + (b.beat - a.beat) * 60 / a.bpm

def secondsAt (a : TempoSegment Rat) (b : Rat) : Rat := a.seconds + (b - a.beat) * 60 / a.bpm

def beatAt (a : TempoSegment Rat) (s : Rat) : Rat := a.beat + (s - a.seconds) * a.bpm / 60

variable {a b : TempoSegment Rat}

theorem secondsAt_strictMono (h : 0 < a.bpm) : StrictMono a.secondsAt := by
  intro x y hxy
  have hlt : (x - a.beat) * 60 / a.bpm < (y - a.beat) * 60 / a.bpm :=
    div_lt_div_of_pos_right (by linarith) h
  unfold secondsAt
  linarith

theorem beatAt_secondsAt (h : 0 < a.bpm) (x : Rat) : a.beatAt (a.secondsAt x) = x := by
  have hne : a.bpm ≠ 0 := h.ne'
  unfold beatAt secondsAt
  field_simp
  ring

theorem secondsAt_beatAt (h : 0 < a.bpm) (s : Rat) : a.secondsAt (a.beatAt s) = s := by
  have hne : a.bpm ≠ 0 := h.ne'
  unfold beatAt secondsAt
  field_simp
  ring

theorem secondsAt_beat : a.secondsAt a.beat = a.seconds := by simp [secondsAt]

theorem Joins.secondsAt_beat (h : a.Joins b) : a.secondsAt b.beat = b.seconds := h.seconds_eq.symm

theorem Joins.seconds_lt (h : a.Joins b) (ha : 0 < a.bpm) : a.seconds < b.seconds := by
  rw [← h.secondsAt_beat, ← TempoSegment.secondsAt_beat (a := a)]
  exact secondsAt_strictMono ha h.beat_lt

end TempoSegment

namespace TempoMap

/-- Stretches that follow each other and have positive tempos. -/
structure Linked (segments : List (TempoSegment Rat)) : Prop where
  joins : segments.IsChain TempoSegment.Joins
  positive : ∀ a ∈ segments, 0 < a.bpm

/-- A map that starts at zero, whose stretches increase strictly in beats and in
seconds, have positive tempos, and start where the one before has led to. -/
structure Steady (m : TempoMap Rat) : Prop where
  starts : m.first.beat = 0 ∧ m.first.seconds = 0
  beats_increase : (m.segments.map TempoSegment.beat).Pairwise (· < ·)
  seconds_increase : (m.segments.map TempoSegment.seconds).Pairwise (· < ·)
  positive : ∀ a ∈ m.segments, 0 < a.bpm
  seconds_eq : ∀ i a b, m.segments[i]? = some a → m.segments[i + 1]? = some b →
    b.seconds = a.seconds + (b.beat - a.beat) * 60 / a.bpm

section Lists

variable {a b : TempoSegment Rat} {rest : List (TempoSegment Rat)}

theorem linked_cons_cons :
    Linked (a :: b :: rest) ↔ 0 < a.bpm ∧ a.Joins b ∧ Linked (b :: rest) := by
  constructor
  · rintro ⟨hj, hp⟩
    obtain ⟨hab, hj⟩ := List.isChain_cons_cons.mp hj
    exact ⟨hp a (List.mem_cons_self ..), hab, hj, fun c hc => hp c (List.mem_cons_of_mem _ hc)⟩
  · rintro ⟨ha, hab, hj, hp⟩
    exact ⟨List.isChain_cons_cons.mpr ⟨hab, hj⟩, List.forall_mem_cons.mpr ⟨ha, hp⟩⟩

theorem Linked.pos (h : Linked (a :: rest)) : 0 < a.bpm := h.positive a (List.mem_cons_self ..)

theorem Linked.starts_after (h : Linked (a :: rest)) :
    ∀ c ∈ rest, a.beat < c.beat ∧ a.seconds < c.seconds := by
  induction rest generalizing a with
  | nil => exact fun c hc => nomatch hc
  | cons b rest ih =>
    obtain ⟨ha, hab, hrest⟩ := linked_cons_cons.mp h
    intro c hc
    rcases List.mem_cons.mp hc with rfl | hc
    · exact ⟨hab.beat_lt, hab.seconds_lt ha⟩
    · obtain ⟨hb, hs⟩ := ih hrest c hc
      exact ⟨hab.beat_lt.trans hb, (hab.seconds_lt ha).trans hs⟩

theorem Linked.increase {segments : List (TempoSegment Rat)} (h : Linked segments) :
    segments.Pairwise fun a b => a.beat < b.beat ∧ a.seconds < b.seconds := by
  induction segments with
  | nil => exact .nil
  | cons a rest ih =>
    refine List.pairwise_cons.mpr ⟨h.starts_after, ih ?_⟩
    exact ⟨h.joins.tail, fun c hc => h.positive c (List.mem_cons_of_mem _ hc)⟩

theorem Linked.steady {m : TempoMap Rat} (h : Linked m.segments)
    (h0 : m.first.beat = 0 ∧ m.first.seconds = 0) : m.Steady where
  starts := h0
  beats_increase := List.pairwise_map.mpr (h.increase.imp And.left)
  seconds_increase := List.pairwise_map.mpr (h.increase.imp And.right)
  positive := h.positive
  seconds_eq := by
    intro i a b ha hb
    obtain ⟨hi, rfl⟩ := List.getElem?_eq_some_iff.mp ha
    obtain ⟨hj, rfl⟩ := List.getElem?_eq_some_iff.mp hb
    exact (List.isChain_iff_getElem.mp h.joins i hj).seconds_eq

end Lists

/-! Finding a stretch. -/

section Find

variable {a b : TempoSegment Rat} {rest : List (TempoSegment Rat)} {p : TempoSegment Rat → Bool}

theorem lastWhere_nil : (TempoMap.mk a []).lastWhere p = a := by
  simp only [lastWhere, segments, List.reverse_cons, List.reverse_nil, List.nil_append,
    List.find?_singleton]
  split <;> rfl

theorem lastWhere_cons (h : p b = false → ∀ c ∈ rest, p c = false) :
    (TempoMap.mk a (b :: rest)).lastWhere p =
      if p b then (TempoMap.mk b rest).lastWhere p else a := by
  have hsplit : (a :: b :: rest).reverse = (b :: rest).reverse ++ [a] := List.reverse_cons
  unfold lastWhere segments
  dsimp only
  rw [hsplit, List.find?_append]
  split
  · rename_i hb
    obtain ⟨c, hc⟩ := Option.isSome_iff_exists.mp
      (List.find?_isSome.mpr ⟨b, List.mem_reverse.mpr (List.mem_cons_self ..), hb⟩)
    rw [hc]
    rfl
  · rename_i hb
    have hb : p b = false := by simpa using hb
    have hnone : (b :: rest).reverse.find? p = none := by
      rw [List.find?_eq_none]
      intro c hc
      rcases List.mem_cons.mp (List.mem_reverse.mp hc) with rfl | hc
      · simp [hb]
      · simp [h hb c hc]
    rw [hnone, Option.none_or, List.find?_singleton]
    split <;> rfl

theorem secondsAtBeat_eq (m : TempoMap Rat) (x : Rat) :
    m.secondsAtBeat x = (m.segmentAtBeat x).secondsAt x := rfl

theorem beatAtSeconds_eq (m : TempoMap Rat) (s : Rat) :
    m.beatAtSeconds s = (m.segmentAtSeconds s).beatAt s := rfl

theorem secondsAtBeat_nil (x : Rat) : (TempoMap.mk a []).secondsAtBeat x = a.secondsAt x := by
  rw [secondsAtBeat_eq, segmentAtBeat, lastWhere_nil]

theorem beatAtSeconds_nil (s : Rat) : (TempoMap.mk a []).beatAtSeconds s = a.beatAt s := by
  rw [beatAtSeconds_eq, segmentAtSeconds, lastWhere_nil]

theorem secondsAtBeat_cons (h : Linked (a :: b :: rest)) (x : Rat) :
    (TempoMap.mk a (b :: rest)).secondsAtBeat x =
      if b.beat ≤ x then (TempoMap.mk b rest).secondsAtBeat x else a.secondsAt x := by
  obtain ⟨-, -, hrest⟩ := linked_cons_cons.mp h
  rw [secondsAtBeat_eq, segmentAtBeat, lastWhere_cons]
  · split <;> simp_all [secondsAtBeat_eq, segmentAtBeat]
  · intro hb c hc
    have hlt : b.beat < c.beat := (hrest.starts_after c hc).1
    simp only [decide_eq_false_iff_not, not_le] at hb ⊢
    exact hb.trans hlt

theorem beatAtSeconds_cons (h : Linked (a :: b :: rest)) (s : Rat) :
    (TempoMap.mk a (b :: rest)).beatAtSeconds s =
      if b.seconds ≤ s then (TempoMap.mk b rest).beatAtSeconds s else a.beatAt s := by
  obtain ⟨-, -, hrest⟩ := linked_cons_cons.mp h
  rw [beatAtSeconds_eq, segmentAtSeconds, lastWhere_cons]
  · split <;> simp_all [beatAtSeconds_eq, segmentAtSeconds]
  · intro hb c hc
    have hlt : b.seconds < c.seconds := (hrest.starts_after c hc).2
    simp only [decide_eq_false_iff_not, not_le] at hb ⊢
    exact hb.trans hlt

end Find

/-! The conversions on linked stretches. -/

section Conversions

variable {a : TempoSegment Rat} {rest : List (TempoSegment Rat)}

theorem secondsAtBeat_first (h : Linked (a :: rest)) :
    (TempoMap.mk a rest).secondsAtBeat a.beat = a.seconds := by
  cases rest with
  | nil => rw [secondsAtBeat_nil, TempoSegment.secondsAt_beat]
  | cons b rest =>
    obtain ⟨-, hab, -⟩ := linked_cons_cons.mp h
    rw [secondsAtBeat_cons h, if_neg hab.beat_lt.not_ge, TempoSegment.secondsAt_beat]

theorem secondsAtBeat_strictMono (h : Linked (a :: rest)) :
    StrictMono (TempoMap.mk a rest).secondsAtBeat := by
  induction rest generalizing a with
  | nil =>
    intro x y hxy
    rw [secondsAtBeat_nil, secondsAtBeat_nil]
    exact TempoSegment.secondsAt_strictMono h.pos hxy
  | cons b rest ih =>
    obtain ⟨ha, hab, hrest⟩ := linked_cons_cons.mp h
    intro x y hxy
    rw [secondsAtBeat_cons h, secondsAtBeat_cons h]
    by_cases hx : b.beat ≤ x
    · rw [if_pos hx, if_pos (hx.trans hxy.le)]
      exact ih hrest hxy
    · rw [if_neg hx]
      by_cases hy : b.beat ≤ y
      · -- The two places lie on either side of the start of the second stretch.
        rw [if_pos hy]
        calc a.secondsAt x < a.secondsAt b.beat :=
              TempoSegment.secondsAt_strictMono ha (not_le.mp hx)
          _ = b.seconds := hab.secondsAt_beat
          _ = (TempoMap.mk b rest).secondsAtBeat b.beat := (secondsAtBeat_first hrest).symm
          _ ≤ (TempoMap.mk b rest).secondsAtBeat y := (ih hrest).monotone hy
      · rw [if_neg hy]
        exact TempoSegment.secondsAt_strictMono ha hxy

theorem beatAtSeconds_secondsAtBeat (h : Linked (a :: rest)) (x : Rat) :
    (TempoMap.mk a rest).beatAtSeconds ((TempoMap.mk a rest).secondsAtBeat x) = x := by
  induction rest generalizing a with
  | nil => rw [secondsAtBeat_nil, beatAtSeconds_nil, TempoSegment.beatAt_secondsAt h.pos]
  | cons b rest ih =>
    obtain ⟨ha, hab, hrest⟩ := linked_cons_cons.mp h
    rw [secondsAtBeat_cons h, beatAtSeconds_cons h]
    by_cases hx : b.beat ≤ x
    · have hle : b.seconds ≤ (TempoMap.mk b rest).secondsAtBeat x := by
        rw [← secondsAtBeat_first hrest]
        exact (secondsAtBeat_strictMono hrest).monotone hx
      rw [if_pos hx, if_pos hle, ih hrest]
    · have hlt : a.secondsAt x < b.seconds := by
        rw [← hab.secondsAt_beat]
        exact TempoSegment.secondsAt_strictMono ha (not_le.mp hx)
      rw [if_neg hx, if_neg hlt.not_ge, TempoSegment.beatAt_secondsAt ha]

theorem secondsAtBeat_beatAtSeconds (h : Linked (a :: rest)) (s : Rat) :
    (TempoMap.mk a rest).secondsAtBeat ((TempoMap.mk a rest).beatAtSeconds s) = s := by
  induction rest generalizing a with
  | nil => rw [secondsAtBeat_nil, beatAtSeconds_nil, TempoSegment.secondsAt_beatAt h.pos]
  | cons b rest ih =>
    obtain ⟨ha, hab, hrest⟩ := linked_cons_cons.mp h
    have hmono := secondsAtBeat_strictMono hrest
    rw [beatAtSeconds_cons h, secondsAtBeat_cons h]
    by_cases hs : b.seconds ≤ s
    · have hle : b.beat ≤ (TempoMap.mk b rest).beatAtSeconds s := by
        rw [← hmono.le_iff_le, ih hrest, secondsAtBeat_first hrest]
        exact hs
      rw [if_pos hs, if_pos hle, ih hrest]
    · have hlt : a.beatAt s < b.beat := by
        rw [← (TempoSegment.secondsAt_strictMono ha).lt_iff_lt, TempoSegment.secondsAt_beatAt ha,
          hab.secondsAt_beat]
        exact not_le.mp hs
      rw [if_neg hs, if_neg hlt.not_ge, TempoSegment.secondsAt_beatAt ha]

theorem beatAtSeconds_strictMono (h : Linked (a :: rest)) :
    StrictMono (TempoMap.mk a rest).beatAtSeconds := by
  intro s t hst
  rw [← (secondsAtBeat_strictMono h).lt_iff_lt, secondsAtBeat_beatAtSeconds h,
    secondsAtBeat_beatAtSeconds h]
  exact hst

end Conversions

/-! Laying down breakpoints. -/

section Breakpoints

variable {m : TempoMap Rat} {bpm x : Rat}

/-- A map that starts at zero, its stretches being linked. -/
structure Laid (m : TempoMap Rat) : Prop where
  starts : m.first.beat = 0 ∧ m.first.seconds = 0
  linked : Linked m.segments

@[simp] theorem last_nil (a : TempoSegment Rat) : (TempoMap.mk a []).last = a := rfl

@[simp] theorem last_append (first a : TempoSegment Rat) (rest : List (TempoSegment Rat)) :
    (TempoMap.mk first (rest ++ [a])).last = a := by simp [last]

theorem getLast?_segments (m : TempoMap Rat) : m.segments.getLast? = some m.last := by
  obtain ⟨first, later⟩ := m
  cases later using List.reverseRecOn with
  | nil => rfl
  | append_singleton rest a => simp [segments, List.getLast?_cons]

theorem secondsAtBeat_of_last_le (h : m.last.beat ≤ x) :
    m.secondsAtBeat x = m.last.secondsAt x := by
  obtain ⟨first, later⟩ := m
  cases later using List.reverseRecOn with
  | nil => rw [secondsAtBeat_nil, last_nil]
  | append_singleton rest a =>
    rw [last_append] at h
    have hfind : (TempoMap.mk first (rest ++ [a])).segmentAtBeat x = a := by
      simp [segmentAtBeat, lastWhere, segments, h]
    rw [secondsAtBeat_eq, hfind, last_append]

theorem secondsAtBeat_last : m.secondsAtBeat m.last.beat = m.last.seconds := by
  rw [secondsAtBeat_of_last_le le_rfl, TempoSegment.secondsAt_beat]

theorem laid_constant (h : 0 < bpm) : (constant bpm).Laid :=
  ⟨⟨rfl, rfl⟩, .singleton _, by simpa [constant, segments] using h⟩

theorem laid_retune (hm : m.Laid) (h : 0 < bpm) : (m.retune bpm).Laid := by
  obtain ⟨first, later⟩ := m
  obtain ⟨h0, hj, hp⟩ := hm
  unfold retune
  cases later using List.reverseRecOn with
  | nil => exact ⟨h0, .singleton _, by simpa [segments] using h⟩
  | append_singleton rest a =>
    simp only [List.getLast?_concat, List.dropLast_concat]
    obtain ⟨hrest, -, hlink⟩ := List.isChain_append.mp (show List.IsChain _ ((first :: rest) ++ [a])
      from hj)
    refine ⟨h0, List.isChain_append.mpr ⟨hrest, .singleton _, ?_⟩, ?_⟩
    · rintro c hc _ ⟨⟩
      exact ⟨(hlink c hc a rfl).beat_lt, (hlink c hc a rfl).seconds_eq⟩
    · intro c hc
      rcases List.mem_append.mp (show c ∈ (first :: rest) ++ [_] from hc) with hc | hc
      · exact hp c (List.mem_append_left [a] hc)
      · rw [List.mem_singleton.mp hc]
        exact h

theorem laid_append (hm : m.Laid) (h : 0 < bpm) (hx : m.last.beat < x) :
    (TempoMap.mk m.first (m.later ++ [⟨x, m.secondsAtBeat x, bpm⟩])).Laid := by
  obtain ⟨h0, hj, hp⟩ := hm
  refine ⟨h0, List.isChain_append.mpr ⟨hj, .singleton _, ?_⟩, ?_⟩
  · rintro c hc _ ⟨⟩
    obtain rfl : m.last = c := Option.some_inj.mp ((getLast?_segments m).symm.trans hc)
    exact ⟨hx, secondsAtBeat_of_last_le hx.le⟩
  · intro c hc
    rcases List.mem_append.mp (show c ∈ m.segments ++ [_] from hc) with hc | hc
    · exact hp c hc
    · rw [List.mem_singleton.mp hc]
      exact h

theorem extend_near {s : Rat} (h : s < m.last.seconds + 1 / 1000000000) :
    m.extend x s bpm = m.retune bpm := by
  unfold extend
  dsimp only
  by_cases hback : s < m.last.seconds
  · have hself : Scalar.magnitude (m.last.seconds - m.last.seconds) < (1 / 1000000000 : Rat) := by
      rw [le_magnitude (sub_nonneg.mpr le_rfl)]
      linarith
    rw [if_pos hback]
    exact if_pos hself
  · have hnear : Scalar.magnitude (s - m.last.seconds) < (1 / 1000000000 : Rat) := by
      rw [le_magnitude (sub_nonneg.mpr (not_lt.mp hback))]
      linarith
    rw [if_neg hback]
    exact if_pos hnear

theorem extend_far {s : Rat} (h : m.last.seconds + 1 / 1000000000 ≤ s) :
    m.extend x s bpm = ⟨m.first, m.later ++ [⟨x, s, bpm⟩]⟩ := by
  have hahead : m.last.seconds ≤ s := by linarith
  have hfar : ¬Scalar.magnitude (s - m.last.seconds) < (1 / 1000000000 : Rat) := by
    rw [le_magnitude (sub_nonneg.mpr hahead)]
    linarith
  unfold extend
  dsimp only
  rw [if_neg hahead.not_gt]
  exact if_neg hfar

theorem extend_cases (m : TempoMap Rat) (x s bpm : Rat) :
    m.extend x s bpm = m.retune bpm ∨
      m.last.seconds < s ∧ m.extend x s bpm = ⟨m.first, m.later ++ [⟨x, s, bpm⟩]⟩ := by
  by_cases hnear : s < m.last.seconds + 1 / 1000000000
  · exact .inl (extend_near hnear)
  · have hfar := not_lt.mp hnear
    exact .inr ⟨by linarith, extend_far hfar⟩

theorem laid_extend (hm : m.Laid) (h : 0 < bpm) (x : Rat) :
    (m.extend x (m.secondsAtBeat x) bpm).Laid := by
  rcases extend_cases m x (m.secondsAtBeat x) bpm with heq | ⟨hlt, heq⟩
  · rw [heq]
    exact laid_retune hm h
  · rw [heq]
    refine laid_append hm h ?_
    rw [← secondsAtBeat_last] at hlt
    exact (secondsAtBeat_strictMono hm.linked).lt_iff_lt.mp hlt

/-- A breakpoint in seconds is one at the beat where the half-built map has that second. -/
theorem laid_insert (hm : m.Laid) (point : Amount Rat × Rat) : (m.insert point).Laid := by
  obtain ⟨amount, bpm⟩ := point
  unfold insert
  split
  · rename_i hpos
    have hbpm : 0 < bpm := of_decide_eq_true (Bool.and_eq_true_iff.mp hpos).2
    cases amount with
    | seconds s =>
      have hs := laid_extend hm hbpm (m.beatAtSeconds s)
      rw [secondsAtBeat_beatAtSeconds hm.linked] at hs
      exact hs
    | beats b => exact laid_extend hm hbpm b
  · exact hm

theorem laid_ofPoints {base : Rat} (h : 0 < base) (points : List (Amount Rat × Rat)) :
    (ofPoints base points).Laid :=
  List.foldlRecOn _ insert (laid_constant h) fun _ hm point _ => laid_insert hm point

end Breakpoints

/-- The map of a positive tempo and any breakpoints is steady, and on it beats and
seconds turn into each other without loss and in order. -/
theorem ofPoints_steady (base : Rat) (h : 0 < base) (points : List (Amount Rat × Rat)) :
    (ofPoints base points).Steady ∧
      StrictMono (ofPoints base points).beatAtSeconds ∧
      StrictMono (ofPoints base points).secondsAtBeat ∧
      (∀ s, (ofPoints base points).secondsAtBeat ((ofPoints base points).beatAtSeconds s) = s) ∧
      ∀ b, (ofPoints base points).beatAtSeconds ((ofPoints base points).secondsAtBeat b) = b := by
  obtain ⟨hstart, hlinked⟩ := laid_ofPoints h points
  exact ⟨hlinked.steady hstart, beatAtSeconds_strictMono hlinked, secondsAtBeat_strictMono hlinked,
    secondsAtBeat_beatAtSeconds hlinked, beatAtSeconds_secondsAtBeat hlinked⟩

theorem ofPoints_steady_mixed :
    let m := ofPoints 120 [(.seconds 3, 90), (.beats 4, 60), (.seconds (-1), 150), (.beats 4, 0)]
    (0 : Rat) < 120 ∧ m.Steady ∧ StrictMono m.beatAtSeconds ∧ StrictMono m.secondsAtBeat ∧
      (∀ s, m.secondsAtBeat (m.beatAtSeconds s) = s) ∧
      ∀ b, m.beatAtSeconds (m.secondsAtBeat b) = b :=
  ⟨by norm_num, ofPoints_steady 120 (by norm_num) _⟩

end TempoMap

end Partitura
