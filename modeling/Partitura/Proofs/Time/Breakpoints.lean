import Partitura.Proofs.Time.Tempo

/-!
# Where breakpoints take effect

Breakpoints are laid down in the order of their places at the base tempo, each on the map of
those before it. A breakpoint that lies after the last stretch of that map starts a stretch of
its own, and any other one gives the last stretch its tempo. Starts of stretches are never
moved again: what is laid later goes on where the map has been cut off, and only the last
stretch changes its tempo.

So it is the order in which breakpoints are laid that counts. Earlier changes of tempo can move
a musical breakpoint past an absolute one that is laid after it; the absolute one then comes too
late for its own place. Where the finished map has the breakpoints in the order in which they
were laid, each takes effect at its own place.
-/

namespace Partitura

def Amount.number : Amount Rat → Rat
  | .seconds x => x
  | .beats x => x

def TempoSegment.StartsAt (seg : TempoSegment Rat) : Amount Rat → Prop
  | .seconds s => seg.seconds = s
  | .beats b => seg.beat = b

instance (seg : TempoSegment Rat) : DecidablePred seg.StartsAt
  | .seconds s => inferInstanceAs (Decidable (seg.seconds = s))
  | .beats b => inferInstanceAs (Decidable (seg.beat = b))

namespace TempoMap

/-! ## One breakpoint -/

section Insert

variable {m : TempoMap Rat} {p : Amount Rat × Rat}

theorem insert_of_not_pos (h : ¬0 < p.2) : m.insert p = m := by
  apply if_neg
  intro hpos
  exact h (of_decide_eq_true (Bool.and_eq_true_iff.mp hpos).2)

/-- A breakpoint before or near the start of the last stretch gives that stretch its tempo; any
other one starts a stretch where it stands. -/
theorem insert_cases (hpos : 0 < p.2) :
    m.position p.1 < m.last.seconds + 1 / 1000000000 ∧ m.insert p = m.retune p.2 ∨
      m.last.seconds + 1 / 1000000000 ≤ m.position p.1 ∧ ∃ beat : Rat,
        TempoSegment.StartsAt ⟨beat, m.position p.1, p.2⟩ p.1 ∧
        m.insert p = ⟨m.first, m.later ++ [⟨beat, m.position p.1, p.2⟩]⟩ := by
  obtain ⟨place, bpm⟩ := p
  have hinsert : ∃ beat : Rat,
      TempoSegment.StartsAt ⟨beat, m.position place, bpm⟩ place ∧
      m.insert (place, bpm) = m.extend beat (m.position place) bpm := by
    have htaken : Scalar.isPositive bpm = true := by
      simpa [Scalar.isPositive, Scalar.isFinite] using hpos
    unfold insert
    rw [if_pos htaken]
    cases place with
    | seconds s => exact ⟨m.beatAtSeconds s, rfl, rfl⟩
    | beats b => exact ⟨b, rfl, rfl⟩
  obtain ⟨beat, hstarts, hinsert⟩ := hinsert
  by_cases hnear : m.position place < m.last.seconds + 1 / 1000000000
  · exact .inl ⟨hnear, hinsert.trans (extend_near hnear)⟩
  · exact .inr ⟨not_lt.mp hnear, beat, hstarts, hinsert.trans (extend_far (not_lt.mp hnear))⟩

@[simp] theorem segments_append (first : TempoSegment Rat) (later added : List (TempoSegment Rat)) :
    (TempoMap.mk first (later ++ added)).segments = (TempoMap.mk first later).segments ++ added :=
  rfl

theorem segments_eq (m : TempoMap Rat) : m.segments = m.segments.dropLast ++ [m.last] := by
  apply (List.dropLast_append_getLast? m.last _).symm
  exact getLast?_segments m

theorem segments_retune (m : TempoMap Rat) (bpm : Rat) :
    (m.retune bpm).segments = m.segments.dropLast ++ [⟨m.last.beat, m.last.seconds, bpm⟩] := by
  obtain ⟨first, later⟩ := m
  cases later using List.reverseRecOn with
  | nil => rfl
  | append_singleton rest a => simp [retune]

theorem last_retune (m : TempoMap Rat) (bpm : Rat) :
    (m.retune bpm).last = ⟨m.last.beat, m.last.seconds, bpm⟩ := by
  have hlast := getLast?_segments (m.retune bpm)
  rw [segments_retune, List.getLast?_concat] at hlast
  exact (Option.some.inj hlast).symm

end Insert

/-! ## Going on after a map -/

/-- A map that goes on after another one: the stretches of that one stay as they are, but for
the tempo of the last one. -/
def Continues (m m' : TempoMap Rat) : Prop :=
  ∃ (bpm : Rat) (later : List (TempoSegment Rat)),
    m'.segments = m.segments.dropLast ++ ⟨m.last.beat, m.last.seconds, bpm⟩ :: later

section Continues

variable {m m' m'' : TempoMap Rat}

theorem continues_refl (m : TempoMap Rat) : m.Continues m := ⟨m.last.bpm, [], segments_eq m⟩

theorem Continues.trans (h : m.Continues m') (h' : m'.Continues m'') : m.Continues m'' := by
  obtain ⟨bpm, later, hseg⟩ := h
  obtain ⟨bpm', later', hseg'⟩ := h'
  have hlast := getLast?_segments m'
  rw [hseg] at hlast hseg'
  cases later using List.reverseRecOn with
  | nil =>
    rw [List.getLast?_concat] at hlast
    rw [← Option.some.inj hlast, List.dropLast_concat] at hseg'
    exact ⟨bpm', later', hseg'⟩
  | append_singleton rest a =>
    rw [← List.cons_append, ← List.append_assoc, List.dropLast_concat] at hseg'
    refine ⟨bpm, rest ++ ⟨m'.last.beat, m'.last.seconds, bpm'⟩ :: later', ?_⟩
    rw [hseg', List.append_assoc, List.cons_append]

theorem continues_retune (m : TempoMap Rat) (bpm : Rat) : m.Continues (m.retune bpm) :=
  ⟨bpm, [], segments_retune m bpm⟩

theorem continues_append (m : TempoMap Rat) (added : List (TempoSegment Rat)) :
    m.Continues ⟨m.first, m.later ++ added⟩ := by
  refine ⟨m.last.bpm, added, ?_⟩
  rw [segments_append]
  conv_lhs => rw [segments_eq]
  rw [List.append_assoc, List.singleton_append]

theorem continues_insert (m : TempoMap Rat) (p : Amount Rat × Rat) : m.Continues (m.insert p) := by
  by_cases hpos : 0 < p.2
  · rcases insert_cases (m := m) hpos with ⟨-, heq⟩ | ⟨-, beat, -, heq⟩
    · rw [heq]
      exact continues_retune m p.2
    · rw [heq]
      exact continues_append m _
  · rw [insert_of_not_pos hpos]
    exact continues_refl m

theorem continues_foldl (m : TempoMap Rat) (points : List (Amount Rat × Rat)) :
    m.Continues (points.foldl insert m) := by
  induction points generalizing m with
  | nil => exact continues_refl m
  | cons p rest ih => exact (continues_insert m p).trans (ih (m.insert p))

/-- A stretch that another one follows is there for good. -/
theorem Continues.mem (h : m.Continues m') {seg : TempoSegment Rat}
    (hseg : seg ∈ m.segments.dropLast) : seg ∈ m'.segments := by
  obtain ⟨bpm, later, heq⟩ := h
  rw [heq]
  exact List.mem_append_left _ hseg

theorem secondsAtBeat_of_mem {a seg : TempoSegment Rat} {rest : List (TempoSegment Rat)}
    (h : Linked (a :: rest)) (hseg : seg ∈ a :: rest) :
    (TempoMap.mk a rest).secondsAtBeat seg.beat = seg.seconds := by
  induction rest generalizing a with
  | nil =>
    rw [List.mem_singleton.mp hseg]
    exact secondsAtBeat_first h
  | cons b rest ih =>
    obtain ⟨-, hab, hrest⟩ := linked_cons_cons.mp h
    rcases List.mem_cons.mp hseg with rfl | hseg
    · exact secondsAtBeat_first h
    · have hle : b.beat ≤ seg.beat := by
        rcases List.mem_cons.mp hseg with rfl | hseg
        · exact le_rfl
        · exact (hrest.starts_after seg hseg).1.le
      rw [secondsAtBeat_cons h, if_pos hle]
      exact ih hrest hseg

theorem lastWhere_congr {same rest rest' : List (TempoSegment Rat)} {p : TempoSegment Rat → Bool}
    (hm : m.segments = same ++ rest) (hm' : m'.segments = same ++ rest')
    (hrest : ∀ c ∈ rest, p c = false) (hrest' : ∀ c ∈ rest', p c = false)
    (hfirst : p m.first = true) : m'.lastWhere p = m.lastWhere p := by
  have hfind {added : List (TempoSegment Rat)} (hadded : ∀ c ∈ added, p c = false) :
      (same ++ added).reverse.find? p = same.reverse.find? p := by
    have hnone : added.reverse.find? p = none := by
      rw [List.find?_eq_none]
      intro c hc
      rw [hadded c (List.mem_reverse.mp hc)]
      exact Bool.false_ne_true
    rw [List.reverse_append, List.find?_append, hnone, Option.none_or]
  have hfound : (m.segments.reverse.find? p).isSome := by
    rw [List.find?_isSome]
    exact ⟨m.first, List.mem_reverse.mpr List.mem_cons_self, hfirst⟩
  rw [hm, hfind hrest] at hfound
  obtain ⟨c, hc⟩ := Option.isSome_iff_exists.mp hfound
  rw [lastWhere, lastWhere, hm, hm', hfind hrest, hfind hrest', hc]
  rfl

/-- Up to the start of the last stretch a map is found again in any map that goes on after it. -/
theorem Continues.secondsAtBeat (h : m.Continues m') (hm : m.Laid) (hm' : m'.Laid) {b : Rat}
    (hb : 0 ≤ b) (hle : b ≤ m.last.beat) : m'.secondsAtBeat b = m.secondsAtBeat b := by
  obtain ⟨bpm, later, hseg⟩ := h
  rcases hle.lt_or_eq with hlt | rfl
  · -- neither the last stretch nor what comes after it is looked up
    have hlater : ∀ c ∈ ⟨m.last.beat, m.last.seconds, bpm⟩ :: later, decide (c.beat ≤ b) = false := by
      have hincrease := hm'.linked.increase
      rw [hseg] at hincrease
      have hafter := (List.pairwise_cons.mp (List.pairwise_append.mp hincrease).2.1).1
      refine List.forall_mem_cons.mpr ⟨decide_eq_false hlt.not_ge, ?_⟩
      intro c hc
      exact decide_eq_false (hlt.trans (hafter c hc).1).not_ge
    rw [secondsAtBeat_eq, secondsAtBeat_eq, segmentAtBeat, segmentAtBeat,
      lastWhere_congr (segments_eq m) hseg (by simpa using hlt) hlater
        (decide_eq_true (hm.starts.1.trans_le hb))]
  · have hmem : ⟨m.last.beat, m.last.seconds, bpm⟩ ∈ m'.segments := by
      rw [hseg]
      exact List.mem_append_right _ List.mem_cons_self
    have hstart := secondsAtBeat_of_mem hm'.linked hmem
    rw [secondsAtBeat_last]
    exact hstart

theorem position_last {a : Amount Rat} (h : m.last.StartsAt a) :
    m.position a = m.last.seconds := by
  cases a with
  | seconds s => exact h.symm
  | beats b =>
    have hbeat : m.last.beat = b := h
    rw [← secondsAtBeat_last, hbeat]
    rfl

theorem Continues.position (h : m.Continues m') (hm : m.Laid) (hm' : m'.Laid) {a : Amount Rat}
    (ha : 0 ≤ a.number) (hle : m.position a ≤ m.last.seconds) :
    m'.position a = m.position a := by
  cases a with
  | seconds s => rfl
  | beats b =>
    apply h.secondsAtBeat hm hm' ha
    rw [← (secondsAtBeat_strictMono hm.linked).le_iff_le, secondsAtBeat_last]
    exact hle

end Continues

/-! ## The order of laying -/

/-- The breakpoints in the order in which they are laid: by their places at the base tempo. -/
def layingOrder (base : Rat) (points : List (Amount Rat × Rat)) : List (Amount Rat × Rat) :=
  points.mergeSort fun p q => decide (p.1.atTempo base ≤ q.1.atTempo base)

def ofOrdered (base : Rat) (points : List (Amount Rat × Rat)) : TempoMap Rat :=
  points.foldl insert (constant base)

theorem ofPoints_eq (base : Rat) (points : List (Amount Rat × Rat)) :
    ofPoints base points = ofOrdered base (layingOrder base points) := rfl

theorem layingOrder_of_pairwise {base : Rat} {points : List (Amount Rat × Rat)}
    (h : points.Pairwise fun p q => p.1.atTempo base ≤ q.1.atTempo base) :
    layingOrder base points = points := List.mergeSort_of_pairwise (h.imp decide_eq_true)

theorem ofPoints_of_pairwise {base : Rat} {points : List (Amount Rat × Rat)}
    (h : points.Pairwise fun p q => p.1.atTempo base ≤ q.1.atTempo base) :
    ofPoints base points = ofOrdered base points := by
  rw [ofPoints_eq, layingOrder_of_pairwise h]

theorem ofOrdered_append (base : Rat) (points later : List (Amount Rat × Rat)) :
    ofOrdered base (points ++ later) = later.foldl insert (ofOrdered base points) :=
  List.foldl_append

theorem ofOrdered_concat (base : Rat) (points : List (Amount Rat × Rat)) (p : Amount Rat × Rat) :
    ofOrdered base (points ++ [p]) = (ofOrdered base points).insert p := List.foldl_concat ..

theorem continues_ofOrdered (base : Rat) (points later : List (Amount Rat × Rat)) :
    (ofOrdered base points).Continues (ofOrdered base (points ++ later)) := by
  rw [ofOrdered_append]
  exact continues_foldl _ later

theorem laid_ofOrdered {base : Rat} (h : 0 < base) (points : List (Amount Rat × Rat)) :
    (ofOrdered base points).Laid :=
  List.foldlRecOn _ insert (laid_constant h) fun _ hm point _ => laid_insert hm point

theorem last_ofOrdered (base : Rat) (points : List (Amount Rat × Rat)) :
    ((ofOrdered base points).last.beat = 0 ∧ (ofOrdered base points).last.seconds = 0) ∨
      1 / 1000000000 ≤ (ofOrdered base points).last.seconds ∧
        ∃ q ∈ points, (ofOrdered base points).last.StartsAt q.1 := by
  induction points using List.reverseRecOn with
  | nil => exact .inl ⟨rfl, rfl⟩
  | append_singleton points p ih =>
    rw [ofOrdered_concat]
    generalize ofOrdered base points = m at ih
    have hsame {seg : TempoSegment Rat} (hbeat : seg.beat = m.last.beat)
        (hseconds : seg.seconds = m.last.seconds) :
        (seg.beat = 0 ∧ seg.seconds = 0) ∨
          1 / 1000000000 ≤ seg.seconds ∧ ∃ q ∈ points ++ [p], seg.StartsAt q.1 := by
      rw [hbeat, hseconds]
      refine ih.imp_right ?_
      rintro ⟨hle, q, hq, hstarts⟩
      refine ⟨hle, q, List.mem_append_left _ hq, ?_⟩
      cases hplace : q.1 with
      | seconds s => rw [hplace] at hstarts; exact hseconds.trans hstarts
      | beats b => rw [hplace] at hstarts; exact hbeat.trans hstarts
    by_cases hpos : 0 < p.2
    · rcases insert_cases (m := m) hpos with ⟨-, heq⟩ | ⟨hfar, beat, hstarts, heq⟩
      · rw [heq, last_retune]
        exact hsame rfl rfl
      · rw [heq, last_append]
        have hzero : 0 ≤ m.last.seconds := by
          rcases ih with ⟨-, hzero⟩ | ⟨hle, -⟩ <;> linarith
        refine .inr ⟨?_, p, by simp, hstarts⟩
        show 1 / 1000000000 ≤ m.position p.1
        linarith
    · rw [insert_of_not_pos hpos]
      exact hsame rfl rfl

/-! ## Taking effect -/

/-- A stretch with the tempo of a breakpoint starts where the breakpoint stands. -/
def TakesEffect (m : TempoMap Rat) (p : Amount Rat × Rat) : Prop :=
  ∃ seg ∈ m.segments, seg.bpm = p.2 ∧ seg.StartsAt p.1

instance (m : TempoMap Rat) : DecidablePred m.TakesEffect :=
  fun p => inferInstanceAs (Decidable (∃ seg ∈ m.segments, seg.bpm = p.2 ∧ seg.StartsAt p.1))

def TellsApart (m : TempoMap Rat) (a b : Amount Rat) : Prop :=
  1 / 1000000000 ≤ |m.position a - m.position b|

instance (m : TempoMap Rat) (a b : Amount Rat) : Decidable (m.TellsApart a b) :=
  inferInstanceAs (Decidable (1 / 1000000000 ≤ |m.position a - m.position b|))

/-- A breakpoint that comes in its turn: on the finished map those laid before it do not lie
after it and the next one does not lie before it, and each of these, and zero, is told apart from
it when the later of the two is laid. -/
structure LaidInTurn (base : Rat) (before : List (Amount Rat × Rat)) (p : Amount Rat × Rat)
    (after : List (Amount Rat × Rat)) : Prop where
  before_le : ∀ q ∈ before, (ofOrdered base (before ++ p :: after)).position q.1 ≤
    (ofOrdered base (before ++ p :: after)).position p.1
  le_next : ∀ q ∈ after.head?, (ofOrdered base (before ++ p :: after)).position p.1 ≤
    (ofOrdered base (before ++ p :: after)).position q.1
  before_apart : ∀ q ∈ before, (ofOrdered base before).TellsApart p.1 q.1
  next_apart : ∀ q ∈ after.head?, (ofOrdered base (before ++ [p])).TellsApart q.1 p.1
  zero_apart : p.1.number = 0 ∨ 1 / 1000000000 ≤ (ofOrdered base before).position p.1

/-- What does not lie before the start of the last stretch on the finished map, and is told apart
from it, lies after that stretch when it is laid. -/
theorem last_add_le {m m' : TempoMap Rat} (h : m.Continues m') (hm : m.Laid) (hm' : m'.Laid)
    {a b : Amount Rat} (ha : 0 ≤ a.number) (hb : 0 ≤ b.number) (hlast : m.last.StartsAt a)
    (hle : m'.position a ≤ m'.position b) (hapart : m.TellsApart b a) :
    m.last.seconds + 1 / 1000000000 ≤ m.position b := by
  have hplace := position_last hlast
  have hahead : m.last.seconds ≤ m.position b := by
    by_contra hback
    rw [h.position hm hm' ha hplace.le, h.position hm hm' hb (not_le.mp hback).le, hplace] at hle
    exact hback hle
  rw [TellsApart, hplace, abs_of_nonneg (sub_nonneg.mpr hahead)] at hapart
  linarith

section Turns

variable {base : Rat} {before after : List (Amount Rat × Rat)} {p : Amount Rat × Rat}

theorem LaidInTurn.last_eq (h : LaidInTurn base before p after) (hbase : 0 < base)
    (hpoints : ∀ q ∈ before ++ p :: after, 0 ≤ q.1.number ∧ 0 < q.2) :
    (ofOrdered base (before ++ [p])).last.StartsAt p.1 ∧
      (ofOrdered base (before ++ [p])).last.bpm = p.2 := by
  have hp := hpoints p (by simp)
  rw [ofOrdered_concat]
  rcases insert_cases (m := ofOrdered base before) hp.2 with ⟨hnear, heq⟩ | ⟨-, beat, hstarts, heq⟩
  · rw [heq, last_retune]
    refine ⟨?_, rfl⟩
    rcases last_ofOrdered base before with ⟨hbeat, hseconds⟩ | ⟨-, q, hq, hlast⟩
    · -- near zero there is zero only
      have hzero : p.1.number = 0 := by
        refine h.zero_apart.resolve_right fun hfar => ?_
        rw [hseconds] at hnear
        linarith
      cases hplace : p.1 with
      | seconds s => rw [hplace] at hzero; exact hseconds.trans hzero.symm
      | beats b => rw [hplace] at hzero; exact hbeat.trans hzero.symm
    · have hfar := last_add_le (continues_ofOrdered base before (p :: after))
        (laid_ofOrdered hbase _) (laid_ofOrdered hbase _)
        (hpoints q (List.mem_append_left _ hq)).1 hp.1 hlast (h.before_le q hq)
        (h.before_apart q hq)
      exact absurd hnear hfar.not_gt
  · rw [heq, last_append]
    exact ⟨hstarts, rfl⟩

theorem LaidInTurn.takesEffect (h : LaidInTurn base before p after) (hbase : 0 < base)
    (hpoints : ∀ q ∈ before ++ p :: after, 0 ≤ q.1.number ∧ 0 < q.2) :
    (ofOrdered base (before ++ p :: after)).TakesEffect p := by
  obtain ⟨hstarts, hbpm⟩ := h.last_eq hbase hpoints
  have hlast : (ofOrdered base (before ++ [p])).last ∈ (ofOrdered base (before ++ [p])).segments :=
    List.mem_of_getLast? (getLast?_segments _)
  cases after with
  | nil => exact ⟨_, hlast, hbpm, hstarts⟩
  | cons next rest =>
    have hnext := hpoints next (by simp)
    have hsplit : before ++ p :: next :: rest = before ++ [p] ++ next :: rest :=
      List.append_cons ..
    have hcontinues := continues_ofOrdered base (before ++ [p]) (next :: rest)
    rw [← hsplit] at hcontinues
    have hfar := last_add_le hcontinues (laid_ofOrdered hbase _) (laid_ofOrdered hbase _)
      (hpoints p (by simp)).1 hnext.1 hstarts (h.le_next next rfl) (h.next_apart next rfl)
    rw [hsplit, ofOrdered_append, List.foldl_cons]
    rcases insert_cases (m := ofOrdered base (before ++ [p])) hnext.2 with
      ⟨hnear, -⟩ | ⟨-, beat, -, heq⟩
    · exact absurd hnear hfar.not_gt
    · -- a stretch follows the one of the breakpoint, which now stays as it is
      refine ⟨_, (continues_foldl _ rest).mem ?_, hbpm, hstarts⟩
      rw [heq, segments_append, List.dropLast_concat]
      exact hlast

end Turns

/-- Where the finished map has the breakpoints in the order in which they were laid, and none is
taken for another one or for zero, each has a stretch of its own tempo at its own place. -/
theorem takesEffect_ofPoints {base : Rat} (hbase : 0 < base) {points : List (Amount Rat × Rat)}
    (hpoints : ∀ q ∈ points, 0 ≤ q.1.number ∧ 0 < q.2)
    {before after : List (Amount Rat × Rat)} {p : Amount Rat × Rat}
    (horder : layingOrder base points = before ++ p :: after) (hturn : LaidInTurn base before p after) :
    (ofPoints base points).TakesEffect p := by
  rw [ofPoints_eq, horder]
  apply hturn.takesEffect hbase
  intro q hq
  rw [← horder] at hq
  exact hpoints q (List.mem_mergeSort.mp hq)

/-- A musical breakpoint that an earlier change of tempo moves, before an absolute one. -/
theorem takesEffect_ofPoints_mixed :
    let points : List (Amount Rat × Rat) := [(.beats 2, 240), (.beats 4, 60), (.seconds 5, 90)]
    (0 : Rat) < 120 ∧ (∀ q ∈ points, 0 ≤ q.1.number ∧ 0 < q.2) ∧
      layingOrder 120 points = [(.beats 2, 240)] ++ (.beats 4, 60) :: [(.seconds 5, 90)] ∧
      LaidInTurn 120 [(.beats 2, 240)] (.beats 4, 60) [(.seconds 5, 90)] ∧
      (ofPoints 120 points).TakesEffect (.beats 4, 60) := by
  intro points
  have hpoints : ∀ q ∈ points, 0 ≤ q.1.number ∧ 0 < q.2 := by decide +kernel
  have horder : layingOrder 120 points =
      [(.beats 2, 240)] ++ (.beats 4, 60) :: [(.seconds 5, 90)] :=
    layingOrder_of_pairwise (by decide +kernel)
  have hturn : LaidInTurn 120 [(.beats 2, 240)] (.beats 4, 60) [(.seconds 5, 90)] := by
    constructor <;> decide +kernel
  exact ⟨by norm_num, hpoints, horder, hturn,
    takesEffect_ofPoints (by norm_num) hpoints horder hturn⟩

/-- A breakpoint among valid ones that none of the others is near to on the finished map, and
that does not take effect at its own place. -/
def Misplaced (base : Rat) (points : List (Amount Rat × Rat)) (p : Amount Rat × Rat) : Prop :=
  0 < base ∧ (∀ q ∈ points, 0 ≤ q.1.number ∧ 0 < q.2) ∧ p ∈ points ∧
    (∀ q ∈ points, q ≠ p → (ofPoints base points).TellsApart p.1 q.1) ∧
    ¬(ofPoints base points).TakesEffect p

/-- An absolute breakpoint is laid after a musical one that has been moved past it. A musical one
is laid while the tempo is so fast that it is near to the one before. One is near to zero. -/
theorem misplaced_breakpoints :
    Misplaced 120 [(.seconds 1, 30), (.beats 4, 90), (.seconds 3, 60)] (.seconds 3, 60) ∧
      Misplaced 60 [(.seconds 1, 600000000000), (.beats 2, 30)] (.beats 2, 30) ∧
      Misplaced 120 [(.seconds (1 / 2000000000), 90)] (.seconds (1 / 2000000000), 90) := by
  have hlate : ofPoints (120 : Rat) [(.seconds 1, 30), (.beats 4, 90), (.seconds 3, 60)] =
      ⟨⟨0, 0, 120⟩, [⟨2, 1, 30⟩, ⟨4, 5, 60⟩]⟩ := by
    rw [ofPoints_of_pairwise (by decide +kernel)]
    decide +kernel
  have hfast : ofPoints (60 : Rat) [(.seconds 1, 600000000000), (.beats 2, 30)] =
      ⟨⟨0, 0, 60⟩, [⟨1, 1, 30⟩]⟩ := by
    rw [ofPoints_of_pairwise (by decide +kernel)]
    decide +kernel
  have hearly : ofPoints (120 : Rat) [(.seconds (1 / 2000000000), 90)] = ⟨⟨0, 0, 90⟩, []⟩ := by
    rw [ofPoints_of_pairwise (by decide +kernel)]
    decide +kernel
  refine ⟨⟨by norm_num, by decide +kernel, by simp, ?_, ?_⟩,
    ⟨by norm_num, by decide +kernel, by simp, ?_, ?_⟩,
    ⟨by norm_num, by decide +kernel, by simp, ?_, ?_⟩⟩
  · rw [hlate]
    decide +kernel
  · rw [hlate]
    decide +kernel
  · rw [hfast]
    decide +kernel
  · rw [hfast]
    decide +kernel
  · rw [hearly]
    decide +kernel
  · rw [hearly]
    decide +kernel

end TempoMap

end Partitura
