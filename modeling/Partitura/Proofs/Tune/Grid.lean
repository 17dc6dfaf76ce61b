import Mathlib.Data.Rat.Floor
import Mathlib.Tactic.Linarith
import Mathlib.Tactic.NormNum
import Mathlib.Tactic.Positivity
import Partitura.Number.Rational
import Partitura.Proofs.Music.Meter
import Partitura.Tune.Grid

/-!
# Bars tile the time line

Over exact numbers the bars of a performance tile the time line from its start: each bar
starts where the one before it stops, none is empty, and the last one goes at least as far
as the music does. The limit on their number is never what ends them: a full bar of a
readable meter has at least a 64th of a quarter, and a bar that is cut short uses up the
change of meter that cuts it.
-/

namespace Partitura

/-- Bars that follow each other without a gap from one place to another, none of them empty. -/
def Tiles (lo : Rat) : List (Bar Rat) → Rat → Prop
  | [], hi => lo = hi
  | bar :: rest, hi => bar.start = lo ∧ bar.start < bar.stop ∧ Tiles bar.stop rest hi

namespace Tiles

variable {lo hi : Rat} {bars : List (Bar Rat)}

theorem le_start (h : Tiles lo bars hi) : ∀ bar ∈ bars, lo ≤ bar.start := by
  induction bars generalizing lo with
  | nil => exact fun bar hbar => nomatch hbar
  | cons first rest ih =>
    obtain ⟨hstart, hfirst, hrest⟩ := h
    refine List.forall_mem_cons.mpr ⟨hstart.ge, fun bar hbar => ?_⟩
    have hstop := ih hrest bar hbar
    linarith

theorem pairwise (h : Tiles lo bars hi) : bars.Pairwise fun a b => a.stop ≤ b.start := by
  induction bars generalizing lo with
  | nil => exact .nil
  | cons first rest ih =>
    obtain ⟨-, -, hrest⟩ := h
    exact List.pairwise_cons.mpr ⟨hrest.le_start, ih hrest⟩

theorem exists_loses {P : Rat → Prop} (h : Tiles lo bars hi) (hlo : P lo) (hhi : ¬P hi) :
    ∃ bar ∈ bars, P bar.start ∧ ¬P bar.stop := by
  induction bars generalizing lo with
  | nil =>
    obtain rfl : lo = hi := h
    exact absurd hlo hhi
  | cons first rest ih =>
    obtain ⟨hstart, -, hrest⟩ := h
    by_cases hstop : P first.stop
    · obtain ⟨bar, hbar, hloses⟩ := ih hrest hstop
      exact ⟨bar, List.mem_cons_of_mem _ hbar, hloses⟩
    · exact ⟨first, List.mem_cons_self, hstart ▸ hlo, hstop⟩

theorem exists_stop (h : Tiles lo bars hi) (hbars : bars ≠ []) : ∃ bar ∈ bars, bar.stop = hi := by
  induction bars generalizing lo with
  | nil => exact absurd rfl hbars
  | cons first rest ih =>
    obtain ⟨-, -, hrest⟩ := h
    cases rest with
    | nil => exact ⟨first, List.mem_cons_self, hrest⟩
    | cons next rest =>
      obtain ⟨bar, hbar, hstop⟩ := ih hrest (List.cons_ne_nil _ _)
      exact ⟨bar, List.mem_cons_of_mem _ hbar, hstop⟩

end Tiles

/-! ## Meters -/

theorem nearness_eq : (nearness : Rat) = 1 / 1000000 := by decide +kernel

theorem quarters_eq (m : Meter) : (m.quarters : Rat) = m.numerator * 4 / m.denominator := by
  show ((m.numerator : Int) : Rat) * ((4 : Nat) : Int) / ((m.denominator : Int) : Rat) = _
  push_cast
  rfl

def Meter.Lasts (m : Meter) : Prop := 1 / 64 ≤ (m.quarters : Rat)

theorem lasts_of_written {m : Meter} (h : m.Written) : m.Lasts := by
  obtain ⟨k, hk, hdenominator⟩ := h.value
  have hn : (1 : Rat) ≤ m.numerator := by exact_mod_cast Nat.one_le_iff_ne_zero.mpr h.positive
  have hd : (0 : Rat) < m.denominator := by
    rw [hdenominator]
    exact_mod_cast Nat.two_pow_pos k
  have hd' : (m.denominator : Rat) ≤ 255 := by
    have hpow : 2 ^ k ≤ 2 ^ 7 := Nat.pow_le_pow_right (by decide) (by omega)
    rw [hdenominator]
    exact_mod_cast hpow.trans (by decide)
  unfold Meter.Lasts
  rw [quarters_eq, le_div_iff₀ hd]
  linarith

def Performance.MetersLast (p : Performance Rat) : Prop :=
  p.meter.Lasts ∧ ∀ c ∈ p.meterChanges, c.value.Lasts

theorem metersLast_perform (s : Score Rat) : (perform s).MetersLast :=
  ⟨lasts_of_written (metersWritten_perform s).1,
    fun c hc => lasts_of_written ((metersWritten_perform s).2 c hc)⟩

/-! ## Changes -/

section Changes

variable {α β : Type} [Scalar α]

def changesAfter (place : α) (changes : List (BeatChange α β)) : List (BeatChange α β) :=
  changes.dropWhile fun c => decide (c.beat ≤ place + nearness)

theorem length_changesAfter (place : α) (changes : List (BeatChange α β)) :
    (changesAfter place changes).length ≤ changes.length := (List.dropWhile_sublist _).length_le

theorem lt_beat_of_changesAfter {place : α} {changes rest : List (BeatChange α β)}
    {c : BeatChange α β} (h : changesAfter place changes = c :: rest) :
    ¬c.beat ≤ place + nearness := by
  have hhead := List.head?_dropWhile_not
    (fun c : BeatChange α β => decide (c.beat ≤ place + nearness)) changes
  rw [← changesAfter, h] at hhead
  simpa using hhead

theorem forall_changesAfter {P : β → Prop} {place : α} {changes : List (BeatChange α β)}
    (h : ∀ c ∈ changes, P c.value) : ∀ c ∈ changesAfter place changes, P c.value :=
  fun c hc => h c ((List.dropWhile_sublist _).subset hc)

variable [DecidableEq β]

theorem left_takeChanges (place : α) (current : β) (changed : Option β)
    (changes : List (BeatChange α β)) :
    (takeChanges place current changed changes).2.2 = changesAfter place changes := by
  induction changes generalizing current changed with
  | nil => rfl
  | cons c rest ih =>
    unfold changesAfter at ih ⊢
    by_cases hdue : c.beat ≤ place + nearness
    · by_cases hsame : c.value = current
      · simp [takeChanges, hdue, hsame, ih]
      · simp [takeChanges, hdue, hsame, ih]
    · simp [takeChanges, hdue]

theorem value_takeChanges (place : α) (current : β) (changed : Option β)
    (changes : List (BeatChange α β)) :
    (takeChanges place current changed changes).1 = current ∨
      ∃ c ∈ changes, (takeChanges place current changed changes).1 = c.value := by
  induction changes generalizing current changed with
  | nil => exact .inl rfl
  | cons c rest ih =>
    simp only [takeChanges]
    split
    · split
      · exact (ih current changed).imp id fun ⟨d, hd, hvalue⟩ =>
          ⟨d, List.mem_cons_of_mem _ hd, hvalue⟩
      · rcases ih c.value (some c.value) with hvalue | ⟨d, hd, hvalue⟩
        · exact .inr ⟨c, List.mem_cons_self, hvalue⟩
        · exact .inr ⟨d, List.mem_cons_of_mem _ hd, hvalue⟩
    · exact .inl rfl

theorem holds_takeChanges {P : β → Prop} {current : β} {changes : List (BeatChange α β)} (place : α)
    (changed : Option β) (hcurrent : P current) (hchanges : ∀ c ∈ changes, P c.value) :
    P (takeChanges place current changed changes).1 := by
  rcases value_takeChanges place current changed changes with hvalue | ⟨c, hc, hvalue⟩
  · rwa [hvalue]
  · rw [hvalue]
    exact hchanges c hc

end Changes

/-! ## Bars -/

theorem barStop_cases (start : Rat) (meter : Meter) (changes : List (BeatChange Rat Meter)) :
    barStop start meter changes = start + meter.quarters ∨
      ∃ c rest, changes = c :: rest ∧ c.beat < start + meter.quarters ∧
        barStop start meter changes = c.beat := by
  have hnearness := nearness_eq
  unfold barStop
  cases changes with
  | nil => exact .inl rfl
  | cons c rest =>
    dsimp only
    split
    · next hcut => exact .inr ⟨c, rest, rfl, by linarith, rfl⟩
    · exact .inl rfl

section Bars

variable {meter : Meter} {key : Key} {meters : List (BeatChange Rat Meter)}
  {keys : List (BeatChange Rat Key)} {stop place : Rat}

/-- What is left to lay in bars: 64ths of quarters, and changes of meter. -/
def toLay (stop place : Rat) (meters : List (BeatChange Rat Meter)) : Rat :=
  (stop - place) * 64 + (changesAfter place meters).length

theorem toLay_nonneg (h : place ≤ stop) (meters : List (BeatChange Rat Meter)) :
    0 ≤ toLay stop place meters := by
  have hlength : (0 : Rat) ≤ (changesAfter place meters).length := Nat.cast_nonneg _
  unfold toLay
  linarith

theorem toLay_barStop (hmeter : meter.Lasts) (stop place : Rat)
    (meters : List (BeatChange Rat Meter)) :
    place < barStop place meter (changesAfter place meters) ∧
      toLay stop (barStop place meter (changesAfter place meters)) (changesAfter place meters) + 1 ≤
        toLay stop place meters := by
  have hnearness := nearness_eq
  unfold Meter.Lasts at hmeter
  unfold toLay
  rcases barStop_cases place meter (changesAfter place meters) with
    hfull | ⟨c, rest, hleft, -, hcut⟩
  · rw [hfull]
    have hfewer : ((changesAfter (place + meter.quarters) (changesAfter place meters)).length : Rat)
        ≤ (changesAfter place meters).length := by exact_mod_cast length_changesAfter _ _
    constructor <;> linarith
  · have hafter := lt_beat_of_changesAfter hleft
    rw [hcut, hleft]
    -- The change that cuts the bar is used up where the bar ends.
    have hused : changesAfter c.beat (c :: rest) = changesAfter c.beat rest := by
      have hdue : c.beat ≤ c.beat + nearness := by linarith
      unfold changesAfter
      exact List.dropWhile_cons_of_pos (by simpa using hdue)
    have hfewer : ((changesAfter c.beat (c :: rest)).length : Rat) ≤ rest.length := by
      rw [hused]
      exact_mod_cast length_changesAfter _ _
    rw [List.length_cons]
    push_cast
    constructor <;> linarith

/-- With room for all that is left to lay, bars tile the time line up to the end. -/
theorem tiles_barsFrom {fuel : Nat} (hmeter : meter.Lasts) (hmeters : ∀ c ∈ meters, c.value.Lasts)
    (hplace : place ≤ stop) (hfuel : toLay stop place meters < fuel) :
    ∃ hi, Tiles place (barsFrom fuel stop place meter key meters keys) hi ∧
      stop - nearness ≤ hi := by
  have hnearness := nearness_eq
  induction fuel generalizing place meter key meters keys with
  | zero =>
    rw [Nat.cast_zero] at hfuel
    exact absurd hfuel (toLay_nonneg hplace meters).not_gt
  | succ fuel ih =>
    have htaken := holds_takeChanges (P := Meter.Lasts) place none hmeter hmeters
    have hleft := left_takeChanges place meter none meters
    simp only [barsFrom, hleft]
    obtain ⟨hlonger, hless⟩ := toLay_barStop htaken stop place meters
    generalize barStop place (takeChanges place meter none meters).1 (changesAfter place meters) =
      next at hlonger hless
    split
    · next hdone => exact ⟨next, ⟨rfl, hlonger, rfl⟩, hdone⟩
    · next hgoes =>
      push_cast at hfuel
      obtain ⟨hi, htiles, hhi⟩ := ih htaken (forall_changesAfter hmeters) (by linarith)
        (by linarith : toLay stop next (changesAfter place meters) < fuel)
      exact ⟨hi, ⟨rfl, hlonger, htiles⟩, hhi⟩

end Bars

theorem lt_wholePart {x : Rat} (h : 0 ≤ x) : x < (Scalar.wholePart x).toNat + 1 := by
  have hwhole : Scalar.wholePart x = ⌊x⌋ := by
    rw [Rat.floor_def']
    exact Int.tdiv_eq_ediv_of_nonneg (Rat.num_nonneg.mpr h)
  have hnat : ((Scalar.wholePart x).toNat : Int) = Scalar.wholePart x := by
    rw [hwhole]
    exact Int.toNat_of_nonneg (Int.floor_nonneg.mpr h)
  calc x < (⌊x⌋ : Rat) + 1 := Int.lt_floor_add_one x
    _ = (((Scalar.wholePart x).toNat : Int) : Rat) + 1 := by rw [hnat, hwhole]
    _ = (Scalar.wholePart x).toNat + 1 := by rw [Int.cast_natCast]

theorem toLay_lt_barLimit {stop : Rat} (hstop : 0 ≤ stop) (meters : List (BeatChange Rat Meter)) :
    toLay stop 0 meters < barLimit stop meters.length := by
  have hwhole := lt_wholePart hstop
  have hfewer : ((changesAfter 0 meters).length : Rat) ≤ meters.length := by
    exact_mod_cast length_changesAfter _ _
  unfold toLay barLimit
  push_cast
  linarith

theorem tiles_barGrid {p : Performance Rat} (hp : p.MetersLast) {stop : Rat} (hstop : 0 ≤ stop) :
    ∃ hi, Tiles 0 (barGrid p stop) hi ∧ stop - nearness ≤ hi := by
  have hlimit := toLay_lt_barLimit hstop (p.meterChanges.map (Change.onBeat p.tempo))
  rw [List.length_map] at hlimit
  exact tiles_barsFrom hp.1 (List.forall_mem_map.mpr hp.2) hstop hlimit

theorem barGrid_ne_nil {α : Type} [Scalar α] (p : Performance α) (stop : α) :
    barGrid p stop ≠ [] := by
  show barsFrom (_ + 63 + 1) stop 0 _ _ _ _ ≠ []
  exact List.cons_ne_nil _ _

end Partitura
