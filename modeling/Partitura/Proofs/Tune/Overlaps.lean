import Partitura.Proofs.Tune.Stretches
import Partitura.Proofs.Tune.Turns

/-!
# What sounds in a bar

Where the places of bars and slots are apart, no place is taken for another one, and the
comparisons up to nearness are those of the places themselves. Slots that take turns are
then laid in a bar one after the other: what sounds in it are the slots that overlap it,
each from its start or that of the bar up to its stop or that of the bar.
-/

namespace Partitura

/-! ## Places that are told apart -/

/-- Places of which any two are the same or far enough from each other to be told apart. -/
def Apart (places : List Rat) : Prop :=
  ∀ x ∈ places, ∀ y ∈ places, x = y ∨ 1 / 100000 ≤ |x - y|

instance (places : List Rat) : Decidable (Apart places) :=
  inferInstanceAs (Decidable (∀ x ∈ places, ∀ y ∈ places, x = y ∨ 1 / 100000 ≤ |x - y|))

def boundaries (bars : List (Bar Rat)) (slots : List (Slot Rat)) : List Rat :=
  bars.flatMap (fun bar => [bar.start, bar.stop]) ++
    slots.flatMap fun slot => [slot.start, slot.stop]

section Places

variable {bars : List (Bar Rat)} {slots : List (Slot Rat)} {bar : Bar Rat} {slot : Slot Rat}

theorem start_mem_boundaries (h : bar ∈ bars) : bar.start ∈ boundaries bars slots :=
  List.mem_append_left _ (List.mem_flatMap.mpr ⟨bar, h, by simp⟩)

theorem stop_mem_boundaries (h : bar ∈ bars) : bar.stop ∈ boundaries bars slots :=
  List.mem_append_left _ (List.mem_flatMap.mpr ⟨bar, h, by simp⟩)

theorem slot_mem_boundaries (h : slot ∈ slots) :
    slot.start ∈ boundaries bars slots ∧ slot.stop ∈ boundaries bars slots :=
  ⟨List.mem_append_right _ (List.mem_flatMap.mpr ⟨slot, h, by simp⟩),
    List.mem_append_right _ (List.mem_flatMap.mpr ⟨slot, h, by simp⟩)⟩

end Places

namespace Apart

variable {places : List Rat} {x y : Rat} (h : Apart places) (hx : x ∈ places) (hy : y ∈ places)

include h hx hy

theorem le_add_nearness : x ≤ y + nearness ↔ x ≤ y := by
  have hnearness := nearness_eq
  constructor
  · intro hle
    rcases h x hx y hy with rfl | hfar
    · exact le_rfl
    · by_contra hlt
      rw [abs_of_pos (by linarith)] at hfar
      linarith
  · intro hle
    linarith

theorem lt_sub_nearness : x < y - nearness ↔ x < y := by
  rw [lt_sub_iff_add_lt, ← not_le, ← not_le, h.le_add_nearness hy hx]

theorem add_nearness_lt : x + nearness < y ↔ x < y := by
  rw [← not_le, ← not_le, h.le_add_nearness hy hx]

theorem sub_nearness_le : x - nearness ≤ y ↔ x ≤ y := by
  rw [sub_le_iff_le_add, h.le_add_nearness hx hy]

end Apart

/-- Slots that last, each of which has stopped when a later one starts. -/
structure InTurn (slots : List (Slot Rat)) : Prop where
  lasts : ∀ slot ∈ slots, slot.start < slot.stop
  ordered : slots.Pairwise fun a b => a.stop ≤ b.start

theorem inTurn_cons {slot : Slot Rat} {rest : List (Slot Rat)} :
    InTurn (slot :: rest) ↔ slot.start < slot.stop ∧ (∀ later ∈ rest, slot.stop ≤ later.start) ∧
      InTurn rest := by
  constructor
  · rintro ⟨hlasts, hordered⟩
    obtain ⟨hslot, hrest⟩ := List.forall_mem_cons.mp hlasts
    obtain ⟨hlater, hordered⟩ := List.pairwise_cons.mp hordered
    exact ⟨hslot, hlater, hrest, hordered⟩
  · rintro ⟨hslot, hlater, hrest, hordered⟩
    exact ⟨List.forall_mem_cons.mpr ⟨hslot, hrest⟩, List.pairwise_cons.mpr ⟨hlater, hordered⟩⟩

theorem InTurn.suffix {gone left : List (Slot Rat)} (h : InTurn (gone ++ left)) : InTurn left :=
  ⟨fun slot hslot => h.lasts slot (List.mem_append_right _ hslot),
    (List.pairwise_append.mp h.ordered).2.1⟩

theorem TakeTurns.inTurn {places : List Rat} {slots : List (Slot Rat)} (h : TakeTurns slots)
    (hapart : Apart places)
    (hslots : ∀ slot ∈ slots, slot.start ∈ places ∧ slot.stop ∈ places) : InTurn slots := by
  have hnearness := nearness_eq
  have hlasts : ∀ slot ∈ slots, slot.start < slot.stop := fun slot hslot => by
    have hslot := h.lasts slot hslot
    linarith
  refine ⟨hlasts, ?_⟩
  have hturns := h.turns
  clear h
  induction slots with
  | nil => exact .nil
  | cons slot rest ih =>
    obtain ⟨⟨-, hstop⟩, hplaces⟩ := List.forall_mem_cons.mp hslots
    obtain ⟨-, hrest⟩ := List.forall_mem_cons.mp hlasts
    have hordered := ih hplaces hrest hturns.tail
    refine List.pairwise_cons.mpr ⟨?_, hordered⟩
    cases rest with
    | nil => exact nofun
    | cons next rest =>
      -- The next slot starts when this one has stopped, and the others after it has stopped.
      obtain ⟨hturn, -⟩ := List.isChain_cons_cons.mp hturns
      obtain ⟨⟨hstart, -⟩, -⟩ := List.forall_mem_cons.mp hplaces
      have hnext : slot.stop ≤ next.start := (hapart.le_add_nearness hstop hstart).mp hturn
      refine List.forall_mem_cons.mpr ⟨hnext, fun later hlater => ?_⟩
      have hlast := hrest next List.mem_cons_self
      have hafter := (List.pairwise_cons.mp hordered).1 later hlater
      linarith

/-! ## Pieces of slots -/

/-- A slot and a bar have a stretch of time in common. -/
def Slot.Overlaps (slot : Slot Rat) (bar : Bar Rat) : Prop :=
  slot.start < bar.stop ∧ bar.start < slot.stop

instance (slot : Slot Rat) (bar : Bar Rat) : Decidable (slot.Overlaps bar) := instDecidableAnd

/-- What sounds in a bar from a place on: the slots that have started before the bar stops and
go on after the place, each within these bounds. -/
def piecesFrom (place : Rat) (bar : Bar Rat) (slots : List (Slot Rat)) : List (Stretch Rat) :=
  (slots.filter fun slot => slot.start < bar.stop ∧ place < slot.stop).map fun slot =>
    ⟨max slot.start place, min slot.stop bar.stop, some slot⟩

theorem piecesFrom_eq {place other : Rat} {bar : Bar Rat} {slots : List (Slot Rat)}
    (hlasts : ∀ slot ∈ slots, slot.start < slot.stop) (hplace : ∀ slot ∈ slots, place ≤ slot.start)
    (hother : ∀ slot ∈ slots, other ≤ slot.start) :
    piecesFrom place bar slots = piecesFrom other bar slots := by
  have hfilter : (slots.filter fun slot => slot.start < bar.stop ∧ place < slot.stop) =
      slots.filter fun slot => slot.start < bar.stop ∧ other < slot.stop := by
    refine List.filter_congr fun slot hslot => ?_
    rw [decide_eq_decide, and_congr_right_iff]
    intro _
    exact iff_of_true ((hplace slot hslot).trans_lt (hlasts slot hslot))
      ((hother slot hslot).trans_lt (hlasts slot hslot))
  unfold piecesFrom
  rw [hfilter]
  refine List.map_congr_left fun slot hslot => ?_
  have hslot := (List.mem_filter.mp hslot).1
  rw [max_eq_left (hplace slot hslot), max_eq_left (hother slot hslot)]

theorem piecesFrom_eq_nil {place : Rat} {bar : Bar Rat} {slots : List (Slot Rat)}
    (h : ∀ slot ∈ slots, bar.stop ≤ slot.start) : piecesFrom place bar slots = [] := by
  unfold piecesFrom
  rw [List.map_eq_nil_iff, List.filter_eq_nil_iff]
  intro slot hslot hsounds
  exact absurd (of_decide_eq_true hsounds).1 (h slot hslot).not_gt

/-! ## Filling a bar -/

def Stretch.sounds {α : Type} (st : Stretch α) : Bool := st.slot?.isSome

def sounding (fuel : Nat) (bar : Bar Rat) (place : Rat) (slots : List (Slot Rat)) :
    List (Stretch Rat) :=
  (barStretches fuel bar place slots).1.filter Stretch.sounds

section Filling

variable {bar : Bar Rat} {place : Rat} {slot : Slot Rat} {rest slots : List (Slot Rat)} {fuel : Nat}

theorem barStretches_closed (h : ¬place < bar.stop - nearness) :
    barStretches fuel bar place slots = ([], slots) := by
  cases fuel with
  | zero => rfl
  | succ fuel => rw [barStretches, if_neg h]

theorem barStretches_full (h : bar.stop ≤ place) :
    barStretches fuel bar place slots = ([], slots) := by
  have hnearness := nearness_eq
  exact barStretches_closed (by linarith)

theorem barStretches_passed (hplace : place < bar.stop - nearness)
    (hpassed : slot.stop ≤ place + nearness) :
    barStretches (fuel + 1) bar place (slot :: rest) = barStretches (fuel + 1) bar place rest := by
  simp only [barStretches, if_pos hplace, leftAt_passed hpassed]

theorem barStretches_started (hplace : place < bar.stop - nearness)
    (hgoes : ¬slot.stop ≤ place + nearness) (hstarted : slot.start ≤ place + nearness) :
    barStretches (fuel + 1) bar place (slot :: rest) =
      (⟨place, min slot.stop bar.stop, some slot⟩ ::
        (barStretches fuel bar (min slot.stop bar.stop) (slot :: rest)).1,
        (barStretches fuel bar (min slot.stop bar.stop) (slot :: rest)).2) := by
  simp only [barStretches, if_pos hplace, leftAt_goesOn hgoes, nextStretch, if_pos hstarted,
    minOf_eq_min]

theorem barStretches_before (hplace : place < bar.stop - nearness)
    (hgoes : ¬slot.stop ≤ place + nearness) (hbefore : ¬slot.start ≤ place + nearness) :
    barStretches (fuel + 1) bar place (slot :: rest) =
      (⟨place, min slot.start bar.stop, none⟩ ::
        (barStretches fuel bar (min slot.start bar.stop) (slot :: rest)).1,
        (barStretches fuel bar (min slot.start bar.stop) (slot :: rest)).2) := by
  simp only [barStretches, if_pos hplace, leftAt_goesOn hgoes, nextStretch, if_neg hbefore,
    minOf_eq_min]

theorem sounding_full (h : bar.stop ≤ place) : sounding fuel bar place slots = [] := by
  rw [sounding, barStretches_full h]
  rfl

theorem sounding_nil : sounding fuel bar place [] = [] := by
  cases fuel with
  | zero => rfl
  | succ fuel =>
    by_cases hplace : place < bar.stop - nearness
    · have hlater : sounding fuel bar bar.stop [] = [] := sounding_full le_rfl
      unfold sounding at hlater ⊢
      simp [barStretches, hplace, leftAt, nextStretch, Stretch.sounds, hlater]
    · simp [sounding, barStretches, hplace]

theorem sounding_passed (hplace : place < bar.stop - nearness)
    (hpassed : slot.stop ≤ place + nearness) :
    sounding (fuel + 1) bar place (slot :: rest) = sounding (fuel + 1) bar place rest := by
  rw [sounding, sounding, barStretches_passed hplace hpassed]

theorem sounding_started (hplace : place < bar.stop - nearness)
    (hgoes : ¬slot.stop ≤ place + nearness) (hstarted : slot.start ≤ place + nearness) :
    sounding (fuel + 1) bar place (slot :: rest) =
      ⟨place, min slot.stop bar.stop, some slot⟩ ::
        sounding fuel bar (min slot.stop bar.stop) (slot :: rest) := by
  rw [sounding, barStretches_started hplace hgoes hstarted]
  exact List.filter_cons_of_pos rfl

theorem sounding_before (hplace : place < bar.stop - nearness)
    (hgoes : ¬slot.stop ≤ place + nearness) (hbefore : ¬slot.start ≤ place + nearness) :
    sounding (fuel + 1) bar place (slot :: rest) =
      sounding fuel bar (min slot.start bar.stop) (slot :: rest) := by
  rw [sounding, barStretches_before hplace hgoes hbefore]
  exact List.filter_cons_of_neg Bool.false_ne_true

variable {places : List Rat} (hapart : Apart places) (hbar : bar.stop ∈ places)

include hapart hbar

theorem sounding_cons_of_started
    (hrecur : ∀ {place : Rat} {fuel : Nat}, place ∈ places → place < bar.stop →
      2 * rest.length + 1 ≤ fuel → sounding fuel bar place rest = piecesFrom place bar rest)
    (hslots : ∀ held ∈ slot :: rest, held.start ∈ places ∧ held.stop ∈ places)
    (hturn : InTurn (slot :: rest)) (hplace : place ∈ places) (hlt : place < bar.stop)
    (hgoes : place < slot.stop) (hstarted : slot.start ≤ place)
    (hfuel : 2 * rest.length + 1 ≤ fuel) :
    sounding (fuel + 1) bar place (slot :: rest) = piecesFrom place bar (slot :: rest) := by
  obtain ⟨⟨hstart, hstop⟩, -⟩ := List.forall_mem_cons.mp hslots
  obtain ⟨-, hlater, hrest⟩ := inTurn_cons.mp hturn
  have hfirst : piecesFrom place bar (slot :: rest) =
      ⟨place, min slot.stop bar.stop, some slot⟩ :: piecesFrom place bar rest := by
    have hslot : slot.start < bar.stop ∧ place < slot.stop := ⟨hstarted.trans_lt hlt, hgoes⟩
    simp [piecesFrom, hslot, max_eq_right hstarted]
  rw [sounding_started ((hapart.lt_sub_nearness hplace hbar).mpr hlt)
    (mt (hapart.le_add_nearness hstop hplace).mp hgoes.not_ge)
    ((hapart.le_add_nearness hstart hplace).mpr hstarted), hfirst]
  congr 1
  rcases lt_or_ge slot.stop bar.stop with hends | hends
  · obtain ⟨fuel, rfl⟩ : ∃ k, fuel = k + 1 := ⟨fuel - 1, by omega⟩
    rw [min_eq_left hends.le, sounding_passed ((hapart.lt_sub_nearness hstop hbar).mpr hends)
      ((hapart.le_add_nearness hstop hstop).mpr le_rfl), hrecur hstop hends hfuel]
    exact piecesFrom_eq hrest.lasts hlater fun later h => hgoes.le.trans (hlater later h)
  · rw [min_eq_right hends, sounding_full le_rfl]
    exact (piecesFrom_eq_nil fun later h => hends.trans (hlater later h)).symm

/-- From a place on, a bar is filled with what sounds in it. -/
theorem sounding_eq (hslots : ∀ slot ∈ slots, slot.start ∈ places ∧ slot.stop ∈ places)
    (hturn : InTurn slots) (hplace : place ∈ places) (hlt : place < bar.stop)
    (hfuel : 2 * slots.length + 1 ≤ fuel) :
    sounding fuel bar place slots = piecesFrom place bar slots := by
  -- By the slots and not by the fuel: each of them takes at most a rest and a note.
  induction slots generalizing place fuel with
  | nil => exact sounding_nil
  | cons slot rest ih =>
    obtain ⟨⟨hstart, hstop⟩, hplaces⟩ := List.forall_mem_cons.mp hslots
    obtain ⟨hlasts, hlater, hrest⟩ := inTurn_cons.mp hturn
    have hopen := (hapart.lt_sub_nearness hplace hbar).mpr hlt
    rw [List.length_cons] at hfuel
    obtain ⟨fuel, rfl⟩ : ∃ k, fuel = k + 1 := ⟨fuel - 1, by omega⟩
    have hrecur {place : Rat} {fuel : Nat} (hplace : place ∈ places) (hlt : place < bar.stop)
        (hfuel : 2 * rest.length + 1 ≤ fuel) :
        sounding fuel bar place rest = piecesFrom place bar rest :=
      ih hplaces hrest hplace hlt hfuel
    rcases le_or_gt slot.stop place with hpassed | hgoes
    · have hsilent : ¬(slot.start < bar.stop ∧ place < slot.stop) := fun h => h.2.not_ge hpassed
      rw [sounding_passed hopen ((hapart.le_add_nearness hstop hplace).mpr hpassed),
        hrecur hplace hlt (by omega)]
      simp [piecesFrom, hsilent]
    · rcases le_or_gt slot.start place with hstarted | hbefore
      · exact sounding_cons_of_started hapart hbar hrecur hslots hturn hplace hlt hgoes hstarted
          (by omega)
      · rw [sounding_before hopen (mt (hapart.le_add_nearness hstop hplace).mp hgoes.not_ge)
          (mt (hapart.le_add_nearness hstart hplace).mp hbefore.not_ge)]
        have hall : ∀ held ∈ slot :: rest, slot.start ≤ held.start :=
          List.forall_mem_cons.mpr ⟨le_rfl, fun later h => hlasts.le.trans (hlater later h)⟩
        rcases lt_or_ge slot.start bar.stop with hin | hout
        · obtain ⟨fuel, rfl⟩ : ∃ k, fuel = k + 1 := ⟨fuel - 1, by omega⟩
          rw [min_eq_left hin.le, sounding_cons_of_started hapart hbar hrecur hslots hturn hstart
            hin hlasts le_rfl (by omega)]
          exact piecesFrom_eq hturn.lasts hall fun held h => hbefore.le.trans (hall held h)
        · rw [min_eq_right hout, sounding_full le_rfl]
          exact (piecesFrom_eq_nil fun held h => hout.trans (hall held h)).symm

end Filling

theorem barStretches_gone (fuel : Nat) (bar : Bar Rat) (place : Rat) (slots : List (Slot Rat)) :
    ∃ gone, slots = gone ++ (barStretches fuel bar place slots).2 ∧
      ∀ slot ∈ gone, slot.stop ≤ bar.stop := by
  induction fuel generalizing place slots with
  | zero => exact ⟨[], rfl, nofun⟩
  | succ fuel ih =>
    by_cases hplace : place < bar.stop - nearness
    · obtain ⟨gone, hleft, hgone⟩ := ih (nextStretch bar place (leftAt place slots)).stop
        (leftAt place slots)
      refine ⟨slots.takeWhile (fun slot => decide (slot.stop ≤ place + nearness)) ++ gone, ?_, ?_⟩
      · simp only [barStretches, if_pos hplace]
        rw [List.append_assoc, ← hleft]
        exact List.takeWhile_append_dropWhile.symm
      · refine List.forall_mem_append.mpr ⟨fun slot hslot => ?_, hgone⟩
        have hpassed : slot.stop ≤ place + nearness := by simpa using List.mem_takeWhile_imp hslot
        linarith
    · exact ⟨[], by simp [barStretches, hplace], nofun⟩

theorem filter_overlaps_of_gone {gone left : List (Slot Rat)} {place : Rat} {bar : Bar Rat}
    (hgone : ∀ slot ∈ gone, slot.stop ≤ place) (hbar : place ≤ bar.start) :
    (gone ++ left).filter (Slot.Overlaps · bar) = left.filter (Slot.Overlaps · bar) := by
  have hnone : gone.filter (Slot.Overlaps · bar) = [] := by
    rw [List.filter_eq_nil_iff]
    intro slot hslot hoverlaps
    have hafter := (of_decide_eq_true hoverlaps).2
    have hstopped := hgone slot hslot
    linarith
  rw [List.filter_append, hnone, List.nil_append]

end Partitura
