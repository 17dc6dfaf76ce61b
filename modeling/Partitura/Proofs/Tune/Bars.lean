import Mathlib.Data.List.TakeWhile
import Partitura.Proofs.Performance.Faithful
import Partitura.Proofs.Performance.OnBeat
import Partitura.Proofs.Tune.Grid

/-!
# Bars in the meters and keys of a performance

The loop over the bars goes along three lists at once: the places where bars start, the changes
of meter and the changes of key. At each place it takes the changes that are due, and it notes a
value only if that differs from the one before. Since starts never go back, what has been taken
at the starts so far is all that is due at the last one, whatever bars it was taken in.

Replayed, the notes of the bars are thus the values in force at their starts. The loop itself
ends by its own test and not by the limit on the number of bars: with more room it lays the same
bars.
-/

namespace Partitura

/-! ## Changes up to a place -/

section Changes

variable {β : Type} {place place' : Rat} {current : β} {changes : List (BeatChange Rat β)}

def lastValue (current : β) (changes : List (BeatChange Rat β)) : β :=
  (changes.getLast?.map BeatChange.value).getD current

def changesDue (place : Rat) (changes : List (BeatChange Rat β)) : List (BeatChange Rat β) :=
  changes.takeWhile fun c => decide (c.beat ≤ place + nearness)

/-- The value at a place: that of the last change at or before it. -/
def valueAt (initial : β) (changes : List (BeatChange Rat β)) (place : Rat) : β :=
  lastValue initial (changes.filter fun c => decide (c.beat ≤ place + nearness))

def changeAfter? (changes : List (BeatChange Rat β)) (place : Rat) : Option (BeatChange Rat β) :=
  changes.find? fun c => decide (place + nearness < c.beat)

theorem lastValue_append (current : β) (changes later : List (BeatChange Rat β)) :
    lastValue current (changes ++ later) = lastValue (lastValue current changes) later := by
  cases later using List.reverseRecOn with
  | nil => simp [lastValue]
  | append_singleton later c => simp [lastValue, ← List.append_assoc]

theorem lastValue_cons (current : β) (c : BeatChange Rat β) (later : List (BeatChange Rat β)) :
    lastValue current (c :: later) = lastValue c.value later :=
  lastValue_append current [c] later

theorem due_of_le (h : place ≤ place') {c : BeatChange Rat β} (hc : c ∈ changesDue place changes) :
    decide (c.beat ≤ place' + nearness) = true := by
  unfold changesDue at hc
  have hdue : c.beat ≤ place + nearness := by simpa using List.mem_takeWhile_imp hc
  exact decide_eq_true (by linarith)

theorem changesDue_eq_append (h : place ≤ place') :
    changesDue place' changes =
      changesDue place changes ++ changesDue place' (changesAfter place changes) := by
  have hsplit : changesDue place changes ++ changesAfter place changes = changes :=
    List.takeWhile_append_dropWhile
  conv_lhs => rw [← hsplit]
  exact List.takeWhile_append_of_pos fun c hc => due_of_le h hc

theorem changesAfter_changesAfter (h : place ≤ place') :
    changesAfter place' (changesAfter place changes) = changesAfter place' changes := by
  have hsplit : changesDue place changes ++ changesAfter place changes = changes :=
    List.takeWhile_append_dropWhile
  conv_rhs => rw [← hsplit]
  exact (List.dropWhile_append_of_pos fun c hc => due_of_le h hc).symm

theorem changesDue_eq_filter (h : changes.Pairwise fun a b => a.beat ≤ b.beat) :
    changesDue place changes = changes.filter fun c => decide (c.beat ≤ place + nearness) := by
  refine (takeWhile_eq_filter (h.imp fun hle hdue => ?_)).1
  exact decide_eq_true (hle.trans (of_decide_eq_true hdue))

theorem valueAt_eq (h : changes.Pairwise fun a b => a.beat ≤ b.beat) (initial : β) :
    valueAt initial changes = fun place => lastValue initial (changesDue place changes) := by
  funext place
  rw [changesDue_eq_filter h]
  rfl

theorem head?_changesAfter (place : Rat) (changes : List (BeatChange Rat β)) :
    (changesAfter place changes).head? = changeAfter? changes place := by
  unfold changesAfter changeAfter?
  simp only [← List.find?_not_eq_head?_dropWhile, ← decide_not, not_le]

variable [DecidableEq β]

theorem value_takeChanges_eq (place : Rat) (current : β) (changed : Option β)
    (changes : List (BeatChange Rat β)) :
    (takeChanges place current changed changes).1 = lastValue current (changesDue place changes) := by
  induction changes generalizing current changed with
  | nil => rfl
  | cons c rest ih =>
    unfold changesDue at ih ⊢
    by_cases hdue : c.beat ≤ place + nearness
    · by_cases hsame : c.value = current
      · simp [takeChanges, hdue, hsame, ih, lastValue_cons]
      · simp [takeChanges, hdue, hsame, ih, lastValue_cons]
    · simp [takeChanges, hdue, lastValue]

theorem changed_takeChanges {before : β} {changed : Option β} (h : changed.getD before = current) :
    (takeChanges place current changed changes).2.1.getD before =
      (takeChanges place current changed changes).1 := by
  induction changes generalizing current changed with
  | nil => exact h
  | cons c rest ih =>
    unfold takeChanges
    by_cases hdue : c.beat ≤ place + nearness
    · rw [if_pos hdue]
      by_cases hsame : c.value = current
      · rw [if_pos hsame]
        exact ih h
      · rw [if_neg hsame]
        exact ih rfl
    · rw [if_neg hdue]
      exact h

end Changes

/-! ## Replaying what bars note -/

section Replay

variable {β : Type}

def replay (current : β) : List (Option β) → List β
  | [] => []
  | field :: rest => field.getD current :: replay (field.getD current) rest

variable [DecidableEq β]

def fieldsAt (current : β) (changes : List (BeatChange Rat β)) : List Rat → List (Option β)
  | [] => []
  | place :: rest =>
    (takeChanges place current none changes).2.1 ::
      fieldsAt (takeChanges place current none changes).1 (changesAfter place changes) rest

theorem replay_fieldsAt {places : List Rat} (h : places.Pairwise (· ≤ ·)) (current : β)
    (changes : List (BeatChange Rat β)) :
    replay current (fieldsAt current changes places) =
      places.map fun place => lastValue current (changesDue place changes) := by
  induction places generalizing current changes with
  | nil => rfl
  | cons place rest ih =>
    obtain ⟨hplace, hrest⟩ := List.pairwise_cons.mp h
    have hfield : (takeChanges place current none changes).2.1.getD current =
        lastValue current (changesDue place changes) := by
      rw [← value_takeChanges_eq place current none]
      exact changed_takeChanges rfl
    unfold fieldsAt replay
    rw [hfield, value_takeChanges_eq, ih hrest, List.map_cons]
    congr 1
    apply List.map_congr_left
    intro later hlater
    rw [← lastValue_append, ← changesDue_eq_append (hplace later hlater)]

end Replay

/-! ## Room for bars -/

section Room

variable {α : Type} [Scalar α]

theorem barsFrom_eq (fuel : Nat) (stop place : α) (meter : Meter) (key : Key)
    (meters : List (BeatChange α Meter)) (keys : List (BeatChange α Key)) :
    barsFrom (fuel + 1) stop place meter key meters keys =
      let meterTaken := takeChanges place meter none meters
      let keyTaken := takeChanges place key none keys
      let next := barStop place meterTaken.1 meterTaken.2.2
      ⟨place, next, meterTaken.2.1, keyTaken.2.1⟩ ::
        if stop - nearness ≤ next then []
        else barsFrom fuel stop next meterTaken.1 keyTaken.1 meterTaken.2.2 keyTaken.2.2 := rfl

/-- Once a bar has reached the end, more room changes nothing. -/
theorem barsFrom_of_reached {fuel n : Nat} {stop place : α} {meter : Meter} {key : Key}
    {meters : List (BeatChange α Meter)} {keys : List (BeatChange α Key)} (hle : fuel ≤ n)
    (h : ∃ bar ∈ barsFrom fuel stop place meter key meters keys, stop - nearness ≤ bar.stop) :
    barsFrom n stop place meter key meters keys =
      barsFrom fuel stop place meter key meters keys := by
  induction fuel generalizing n place meter key meters keys with
  | zero =>
    obtain ⟨bar, hbar, -⟩ := h
    exact nomatch hbar
  | succ fuel ih =>
    obtain ⟨n, rfl⟩ := Nat.exists_eq_add_of_le' (Nat.le_of_add_left_le hle)
    obtain ⟨bar, hbar, hreached⟩ := h
    rw [barsFrom_eq] at hbar
    rw [barsFrom_eq, barsFrom_eq]
    dsimp only at hbar ⊢
    split at hbar
    · next hdone => rw [if_pos hdone, if_pos hdone]
    · next hmore =>
      -- the first bar has not reached the end, so a later one has
      rcases List.mem_cons.mp hbar with rfl | hlater
      · exact absurd hreached hmore
      rw [if_neg hmore, if_neg hmore, ih (Nat.le_of_succ_le_succ hle) ⟨bar, hlater, hreached⟩]

end Room

/-! ## Bars -/

section Bars

variable {meter : Meter} {key : Key} {meters : List (BeatChange Rat Meter)}
  {keys : List (BeatChange Rat Key)} {stop place : Rat}

theorem Tiles.pairwise_start {lo hi : Rat} {bars : List (Bar Rat)} (h : Tiles lo bars hi) :
    (bars.map Bar.start).Pairwise (· ≤ ·) := by
  induction bars generalizing lo with
  | nil => exact .nil
  | cons bar rest ih =>
    obtain ⟨-, hbar, hrest⟩ := h
    refine List.pairwise_cons.mpr ⟨?_, ih hrest⟩
    intro start hstart
    obtain ⟨later, hlater, rfl⟩ := List.mem_map.mp hstart
    exact hbar.le.trans (hrest.le_start later hlater)

theorem barsFrom_succ (fuel : Nat) (stop place : Rat) (meter : Meter) (key : Key)
    (meters : List (BeatChange Rat Meter)) (keys : List (BeatChange Rat Key)) :
    barsFrom (fuel + 1) stop place meter key meters keys =
      let inMeter := lastValue meter (changesDue place meters)
      let inKey := lastValue key (changesDue place keys)
      let next := barStop place inMeter (changesAfter place meters)
      ⟨place, next, (takeChanges place meter none meters).2.1,
          (takeChanges place key none keys).2.1⟩ ::
        if stop - nearness ≤ next then []
        else barsFrom fuel stop next inMeter inKey (changesAfter place meters)
          (changesAfter place keys) := by
  rw [barsFrom_eq]
  simp only [left_takeChanges, value_takeChanges_eq]

theorem fields_barsFrom (fuel : Nat) (stop place : Rat) (meter : Meter) (key : Key)
    (meters : List (BeatChange Rat Meter)) (keys : List (BeatChange Rat Key)) :
    (barsFrom fuel stop place meter key meters keys).map Bar.meter =
        fieldsAt meter meters ((barsFrom fuel stop place meter key meters keys).map Bar.start) ∧
      (barsFrom fuel stop place meter key meters keys).map Bar.key =
        fieldsAt key keys ((barsFrom fuel stop place meter key meters keys).map Bar.start) := by
  induction fuel generalizing place meter key meters keys with
  | zero => exact ⟨rfl, rfl⟩
  | succ fuel ih =>
    simp only [barsFrom_succ, List.map_cons, fieldsAt, value_takeChanges_eq]
    split
    · exact ⟨rfl, rfl⟩
    · obtain ⟨hmeter, hkey⟩ := ih (barStop place (lastValue meter (changesDue place meters))
        (changesAfter place meters)) (lastValue meter (changesDue place meters))
        (lastValue key (changesDue place keys)) (changesAfter place meters) (changesAfter place keys)
      rw [hmeter, hkey]
      exact ⟨rfl, rfl⟩

theorem lasts_lastValue (place : Rat) (hmeter : meter.Lasts)
    (hmeters : ∀ c ∈ meters, c.value.Lasts) :
    (lastValue meter (changesDue place meters)).Lasts := by
  rw [← value_takeChanges_eq place meter none]
  exact holds_takeChanges place none hmeter hmeters

theorem stop_of_mem_barsFrom {fuel : Nat} (hmeter : meter.Lasts)
    (hmeters : ∀ c ∈ meters, c.value.Lasts) {bar : Bar Rat}
    (hbar : bar ∈ barsFrom fuel stop place meter key meters keys) :
    place ≤ bar.start ∧ bar.stop = barStop bar.start
      (lastValue meter (changesDue bar.start meters)) (changesAfter bar.start meters) := by
  induction fuel generalizing place meter key meters keys with
  | zero => exact nomatch hbar
  | succ fuel ih =>
    rw [barsFrom_succ] at hbar
    rcases List.mem_cons.mp hbar with rfl | hbar
    · exact ⟨le_rfl, rfl⟩
    · obtain ⟨-, hbar⟩ := (List.mem_ite_nil_left ..).mp hbar
      have htaken := lasts_lastValue place hmeter hmeters
      obtain ⟨hstart, hstop⟩ := ih htaken (forall_changesAfter hmeters) hbar
      have hahead := (toLay_barStop htaken stop place meters).1.le.trans hstart
      refine ⟨hahead, ?_⟩
      rw [hstop, changesAfter_changesAfter hahead, ← lastValue_append, ← changesDue_eq_append hahead]

theorem lasts_of_mem_barsFrom {fuel : Nat} (hmeter : meter.Lasts)
    (hmeters : ∀ c ∈ meters, c.value.Lasts) {bar : Bar Rat}
    (hbar : bar ∈ barsFrom fuel stop place meter key meters keys) :
    bar.start < bar.stop - nearness := by
  have hnearness := nearness_eq
  have hlasts := lasts_lastValue bar.start hmeter hmeters
  unfold Meter.Lasts at hlasts
  rw [(stop_of_mem_barsFrom hmeter hmeters hbar).2]
  rcases barStop_cases bar.start (lastValue meter (changesDue bar.start meters))
    (changesAfter bar.start meters) with hfull | ⟨c, rest, hleft, -, hcut⟩
  · rw [hfull]
    linarith
  · have hafter := lt_beat_of_changesAfter hleft
    rw [hcut]
    linarith

end Bars

/-! ## The bars of a performance -/

theorem lasts_of_mem_barGrid {p : Performance Rat} (hp : p.MetersLast) {stop : Rat} {bar : Bar Rat}
    (hbar : bar ∈ barGrid p stop) : bar.start < bar.stop - nearness := by
  have hmeters : ∀ c ∈ p.meterChanges.map (Change.onBeat p.tempo), c.value.Lasts :=
    List.forall_mem_map.mpr hp.2
  exact lasts_of_mem_barsFrom hp.1 hmeters hbar

/-- A bar of the meter in force at its start, unless the next change of meter cuts it short. -/
structure Bar.InMeter (initial : Meter) (meters : List (BeatChange Rat Meter)) (bar : Bar Rat) :
    Prop where
  cut : ∀ c, changeAfter? meters bar.start = some c →
    c.beat < bar.start + (valueAt initial meters bar.start).quarters - nearness → bar.stop = c.beat
  full : (∀ c, changeAfter? meters bar.start = some c →
      ¬c.beat < bar.start + (valueAt initial meters bar.start).quarters - nearness) →
    bar.stop = bar.start + (valueAt initial meters bar.start).quarters

def Performance.metersOnBeat (p : Performance Rat) : List (BeatChange Rat Meter) :=
  p.meterChanges.map (Change.onBeat p.tempo)

def Performance.keysOnBeat (p : Performance Rat) : List (BeatChange Rat Key) :=
  p.keyChanges.map (Change.onBeat p.tempo)

/-- Bars that the loop lays up to an end, however much room it has: they tile the time line, and
they note and have the meter and the key that are in force where they start. -/
structure Barred (p : Performance Rat) (stop : Rat) (bars : List (Bar Rat)) : Prop where
  ends : ∀ n, barLimit stop p.meterChanges.length ≤ n →
    barsFrom n stop 0 p.meter (p.key.getD .cMajor) p.metersOnBeat p.keysOnBeat = bars
  tiles : bars ≠ [] ∧ ∃ hi, Tiles 0 bars hi ∧ stop - nearness ≤ hi
  noted_meter : replay p.meter (bars.map Bar.meter) =
    (bars.map Bar.start).map (valueAt p.meter p.metersOnBeat)
  noted_key : replay (p.key.getD .cMajor) (bars.map Bar.key) =
    (bars.map Bar.start).map (valueAt (p.key.getD .cMajor) p.keysOnBeat)
  inMeter : ∀ bar ∈ bars, bar.InMeter p.meter p.metersOnBeat

theorem inMeter_of_stop {initial : Meter} {meters : List (BeatChange Rat Meter)} {bar : Bar Rat}
    (h : bar.stop = barStop bar.start (valueAt initial meters bar.start)
      (changesAfter bar.start meters)) : bar.InMeter initial meters := by
  have hhead := head?_changesAfter bar.start meters
  unfold barStop at h
  constructor
  · intro c hc hcut
    obtain ⟨rest, hrest⟩ := List.head?_eq_some_iff.mp (hhead.trans hc)
    rw [hrest] at h
    exact h.trans (if_pos hcut)
  · intro hfull
    cases hafter : changesAfter bar.start meters with
    | nil =>
      rw [hafter] at h
      exact h
    | cons c rest =>
      rw [hafter] at h hhead
      exact h.trans (if_neg (hfull c hhead.symm))

theorem pairwise_onBeat {β : Type} {tempo : TempoMap Rat} (htempo : tempo.Laid)
    {changes : List (Change Rat β)} (h : changes.Pairwise fun a b => a.seconds ≤ b.seconds) :
    (changes.map (Change.onBeat tempo)).Pairwise fun a b => a.beat ≤ b.beat := by
  refine List.pairwise_map.mpr (h.imp fun {a b} hle => ?_)
  exact (TempoMap.beatAtSeconds_strictMono htempo.linked).monotone hle

/-- The bars of a performance tile its time line in the meters and keys that are in force. -/
theorem barred_barGrid (s : Score Rat) {stop : Rat} (hstop : 0 ≤ stop) :
    Barred (perform s) stop (barGrid (perform s) stop) := by
  obtain ⟨hmeter, hchanges⟩ := metersLast_perform s
  have hlasts : ∀ c ∈ (perform s).metersOnBeat, c.value.Lasts := List.forall_mem_map.mpr hchanges
  obtain ⟨hi, htiles, hend⟩ := tiles_barGrid ⟨hmeter, hchanges⟩ hstop
  have hmeters : (perform s).metersOnBeat.Pairwise fun a b => a.beat ≤ b.beat :=
    pairwise_onBeat (laid_tempo s) (pairwise_meterChanges s)
  have hkeys : (perform s).keysOnBeat.Pairwise fun a b => a.beat ≤ b.beat :=
    pairwise_onBeat (laid_tempo s) (pairwise_keyChanges s)
  obtain ⟨hmeterFields, hkeyFields⟩ := fields_barsFrom
    (barLimit stop (perform s).meterChanges.length) stop 0 (perform s).meter
    ((perform s).key.getD .cMajor) (perform s).metersOnBeat (perform s).keysOnBeat
  refine
    { ends := fun n hn => ?_
      tiles := ⟨barGrid_ne_nil _ _, hi, htiles, hend⟩
      noted_meter := ?_
      noted_key := ?_
      inMeter := fun bar hbar => inMeter_of_stop ?_ }
  · obtain ⟨last, hlast, hat⟩ := htiles.exists_stop (barGrid_ne_nil _ _)
    exact barsFrom_of_reached hn ⟨last, hlast, hat ▸ hend⟩
  · rw [valueAt_eq hmeters, ← replay_fieldsAt htiles.pairwise_start]
    exact congrArg _ hmeterFields
  · rw [valueAt_eq hkeys, ← replay_fieldsAt htiles.pairwise_start]
    exact congrArg _ hkeyFields
  · rw [valueAt_eq hmeters]
    exact (stop_of_mem_barsFrom hmeter hlasts hbar).2

/-- A change of meter within a bar, two at one place, and a change of key within a bar. -/
theorem barred_barGrid_song :
    let song : Score Rat := { Score.blank with
      meter := some "3/4"
      meterMap := [⟨.text "0:2", "6/8"⟩, ⟨.seconds 4, "C|"⟩, ⟨.seconds 4, "5/8"⟩]
      keyMap := [⟨.text "0:1", "D"⟩] }
    (0 : Rat) ≤ 12 ∧ Barred (perform song) 12 (barGrid (perform song) 12) := by
  intro song
  exact ⟨by norm_num, barred_barGrid song (by norm_num)⟩

end Partitura
