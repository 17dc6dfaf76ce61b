import Partitura.Proofs.Tune.Length
import Partitura.Proofs.Tune.Runs

/-!
# Full measures

A bar is filled by stretches that lead from its start to its stop without a gap, whatever the
slots are: each stretch ends where a slot starts or stops or where the bar does, and later than
it starts. The lengths of the stretches therefore add up to that of the bar. Where all of these
places are whole numbers of eighths of a quarter, every stretch is one too and is written as
long as it is, so what is written between two ends of bars adds up to the bar.
-/

namespace Partitura

/-! ## Written lengths -/

def Element.length? : Element → Option Length
  | .note token => some token.length
  | .rest length => some length
  | _ => none

def written (elements : List Element) : Rat :=
  ((elements.filterMap Element.length?).map Length.quarters).sum

/-- What is written between the ends of the bars, and after the last one. -/
def Voice.measures (voice : Voice) : List Rat :=
  (voice.elements.splitOnP Element.isBarEnd).map written

theorem written_append (xs ys : List Element) : written (xs ++ ys) = written xs + written ys := by
  simp [written]

theorem written_eq_zero {elements : List Element} (h : ∀ e ∈ elements, e.length? = none) :
    written elements = 0 := by
  rw [written, List.filterMap_eq_nil_iff.mpr h]
  rfl

theorem written_note (token : Token) : written [.note token] = token.length.quarters := by
  simp [written, Element.length?]

theorem written_rest (length : Length) : written [.rest length] = length.quarters := by
  simp [written, Element.length?]

theorem written_takeTempos (place : Rat) (s : VoiceState Rat) :
    written (takeTempos place s).1 = 0 := by
  apply written_eq_zero
  intro e he
  obtain ⟨tempo, -, rfl⟩ := List.mem_map.mp he
  rfl

theorem written_barFields (bar : Bar Rat) : written (barFields bar) = 0 := by
  apply written_eq_zero
  intro e he
  rcases List.mem_append.mp he with he | he
  · obtain ⟨meter, -, rfl⟩ := Option.map_eq_some_iff.mp (Option.mem_toList.mp he)
    rfl
  · obtain ⟨key, -, rfl⟩ := Option.map_eq_some_iff.mp (Option.mem_toList.mp he)
    rfl

def Stretch.written (st : Stretch Rat) : Rat := (Length.ofQuarters (st.stop - st.start)).quarters

theorem length_slotToken (bar : Bar Rat) (place : Rat) (slot : Slot Rat) (s : VoiceState Rat) :
    (slotToken bar place slot s).1.length =
      Length.ofQuarters (Scalar.minOf slot.stop bar.stop - place) :=
  (isWritten_slotToken bar 0 slot place s).length

theorem written_writeStretch {bar : Bar Rat} {st : Stretch Rat} (hfits : st.FitsIn bar)
    (s : VoiceState Rat) : written (writeStretch bar st s).1 = st.written := by
  unfold writeStretch
  cases hslot : st.slot? with
  | none =>
    dsimp only
    rw [written_append, written_takeTempos, zero_add, written_rest]
    rfl
  | some slot =>
    dsimp only
    rw [written_append, written_takeTempos, zero_add, written_note, length_slotToken,
      ← hfits slot hslot]
    rfl

theorem written_writeStretches {bar : Bar Rat} {sts : List (Stretch Rat)}
    (hfits : ∀ st ∈ sts, st.FitsIn bar) (s : VoiceState Rat) :
    written (writeStretches bar sts s).1 = (sts.map Stretch.written).sum := by
  induction sts generalizing s with
  | nil => rfl
  | cons st rest ih =>
    obtain ⟨hst, hrest⟩ := List.forall_mem_cons.mp hfits
    rw [List.map_cons, List.sum_cons, ← written_writeStretch hst s, ← ih hrest, ← written_append]
    rfl

theorem written_layBar (bar : Bar Rat) (s : VoiceState Rat) :
    written (layBar bar s).1 = ((stretchesOf bar s.slots).1.map Stretch.written).sum := by
  rw [layBar_eq]
  dsimp only
  rw [written_append, written_barFields, zero_add]
  exact written_writeStretches (fun st hst => barStretches_fitsIn hst) _

/-! ## Stretches that fill a bar -/

/-- Stretches that lead from one place to another, each of them from one to a later one of some
places. -/
inductive Leads (places : List Rat) : Rat → List (Stretch Rat) → Rat → Prop
  | nil (place : Rat) : Leads places place [] place
  | cons {lo mid hi : Rat} {slot? : Option (Slot Rat)} {rest : List (Stretch Rat)}
      (hlt : lo < mid) (hlo : lo ∈ places) (hmid : mid ∈ places) (hrest : Leads places mid rest hi) :
      Leads places lo (⟨lo, mid, slot?⟩ :: rest) hi

section Filling

variable {places : List Rat} {bar : Bar Rat} {place : Rat} {slot : Slot Rat}
  {rest slots : List (Slot Rat)} {fuel : Nat}

theorem leads_full (fuel : Nat) (bar : Bar Rat) (slots : List (Slot Rat)) :
    Leads places bar.stop (barStretches fuel bar bar.stop slots).1 bar.stop := by
  rw [barStretches_full le_rfl]
  exact .nil bar.stop

theorem Leads.le {lo hi : Rat} {sts : List (Stretch Rat)} (h : Leads places lo sts hi) :
    lo ≤ hi := by
  induction h with
  | nil => exact le_rfl
  | cons hlt _ _ _ ih => exact hlt.le.trans ih

/-- The written lengths of stretches add up, as long as 32 bits can count the eighths. -/
theorem Leads.sum_written {lo hi : Rat} {sts : List (Stretch Rat)} (h : Leads places lo sts hi)
    (hplaces : ∀ x ∈ places, IsEighths x) (hle : (hi - lo) * 8 ≤ 4294967295) :
    (sts.map Stretch.written).sum = hi - lo := by
  induction h with
  | nil => simp
  | @cons lo mid hi slot? rest hlt hlo hmid hrest ih =>
    have hends := hrest.le
    have hfirst : (Length.ofQuarters (mid - lo)).quarters = mid - lo :=
      Length.quarters_ofQuarters ((hplaces mid hmid).sub (hplaces lo hlo)) (sub_pos.mpr hlt)
        (by linarith)
    rw [List.map_cons, List.sum_cons, ih (by linarith), Stretch.written, hfirst]
    ring

variable (hapart : Apart places) (hbar : bar.stop ∈ places)

include hapart hbar

theorem leads_of_started
    (hrecur : ∀ {place : Rat} {fuel : Nat}, place ∈ places → place ≤ bar.stop →
      2 * rest.length + 1 ≤ fuel → Leads places place (barStretches fuel bar place rest).1 bar.stop)
    (hslot : slot.start ∈ places ∧ slot.stop ∈ places) (hplace : place ∈ places)
    (hlt : place < bar.stop) (hgoes : place < slot.stop) (hstarted : slot.start ≤ place)
    (hfuel : 2 * rest.length + 1 ≤ fuel) :
    Leads places place (barStretches (fuel + 1) bar place (slot :: rest)).1 bar.stop := by
  rw [barStretches_started ((hapart.lt_sub_nearness hplace hbar).mpr hlt)
    (mt (hapart.le_add_nearness hslot.2 hplace).mp hgoes.not_ge)
    ((hapart.le_add_nearness hslot.1 hplace).mpr hstarted)]
  rcases lt_or_ge slot.stop bar.stop with hends | hends
  · obtain ⟨fuel, rfl⟩ : ∃ k, fuel = k + 1 := ⟨fuel - 1, by omega⟩
    rw [min_eq_left hends.le, barStretches_passed ((hapart.lt_sub_nearness hslot.2 hbar).mpr hends)
      ((hapart.le_add_nearness hslot.2 hslot.2).mpr le_rfl)]
    exact .cons hgoes hplace hslot.2 (hrecur hslot.2 hends.le hfuel)
  · rw [min_eq_right hends]
    exact .cons hlt hplace hbar (leads_full fuel bar _)

theorem leads_barStretches (hslots : ∀ slot ∈ slots, slot.start ∈ places ∧ slot.stop ∈ places)
    (hplace : place ∈ places) (hle : place ≤ bar.stop) (hfuel : 2 * slots.length + 1 ≤ fuel) :
    Leads places place (barStretches fuel bar place slots).1 bar.stop := by
  -- Each slot takes at most a rest and a stretch of its own, in whatever order the slots are.
  induction slots generalizing place fuel with
  | nil =>
    obtain ⟨fuel, rfl⟩ : ∃ k, fuel = k + 1 := ⟨fuel - 1, by omega⟩
    rcases hle.lt_or_eq with hlt | rfl
    · rw [barStretches, if_pos ((hapart.lt_sub_nearness hplace hbar).mpr hlt)]
      exact .cons hlt hplace hbar (leads_full fuel bar _)
    · exact leads_full (fuel + 1) bar []
  | cons slot rest ih =>
    obtain ⟨hslot, hrest⟩ := List.forall_mem_cons.mp hslots
    rw [List.length_cons] at hfuel
    obtain ⟨fuel, rfl⟩ : ∃ k, fuel = k + 2 := ⟨fuel - 2, by omega⟩
    rcases hle.lt_or_eq with hlt | rfl
    · have hopen := (hapart.lt_sub_nearness hplace hbar).mpr hlt
      rcases le_or_gt slot.stop place with hpassed | hgoes
      · rw [barStretches_passed hopen ((hapart.le_add_nearness hslot.2 hplace).mpr hpassed)]
        exact ih hrest hplace hle (by omega)
      · rcases le_or_gt slot.start place with hstarted | hbefore
        · exact leads_of_started hapart hbar (ih hrest) hslot hplace hlt hgoes hstarted (by omega)
        · rw [barStretches_before hopen (mt (hapart.le_add_nearness hslot.2 hplace).mp hgoes.not_ge)
            (mt (hapart.le_add_nearness hslot.1 hplace).mp hbefore.not_ge)]
          rcases lt_or_ge slot.start bar.stop with hin | hout
          · rw [min_eq_left hin.le]
            refine .cons hbefore hplace hslot.1 ?_
            -- A slot that stops no later than it starts is passed there.
            rcases lt_or_ge slot.start slot.stop with hlasts | hgone
            · exact leads_of_started hapart hbar (ih hrest) hslot hslot.1 hin hlasts le_rfl
                (by omega)
            · rw [barStretches_passed ((hapart.lt_sub_nearness hslot.1 hbar).mpr hin)
                ((hapart.le_add_nearness hslot.2 hslot.1).mpr hgone)]
              exact ih hrest hslot.1 hin.le (by omega)
          · rw [min_eq_right hout]
            exact .cons hlt hplace hbar (leads_full (fuel + 1) bar _)
    · exact leads_full (fuel + 2) bar _

end Filling

/-! ## Bars -/

def Bar.length (bar : Bar Rat) : Rat := bar.stop - bar.start

def Performance.MetersFit (p : Performance Rat) : Prop :=
  p.meter.numerator ≤ 255 ∧ ∀ c ∈ p.meterChanges, c.value.numerator ≤ 255

theorem quarters_mem {m : Meter} (h : m.numerator ≤ 255) :
    0 ≤ (m.quarters : Rat) ∧ (m.quarters : Rat) ≤ 1020 := by
  have hn : (m.numerator : Rat) ≤ 255 := by exact_mod_cast h
  have hpos : (0 : Rat) ≤ m.numerator * 4 := by positivity
  rw [quarters_eq]
  refine ⟨div_nonneg hpos (Nat.cast_nonneg _), ?_⟩
  rcases Nat.eq_zero_or_pos m.denominator with hzero | hd
  · rw [hzero, Nat.cast_zero, div_zero]
    norm_num
  · have hone : (1 : Rat) ≤ m.denominator := by exact_mod_cast hd
    exact (div_le_self hpos hone).trans (by linarith)

theorem barStop_mem {meter : Meter} (h : meter.numerator ≤ 255) (place : Rat)
    (meters : List (BeatChange Rat Meter)) :
    place ≤ barStop place meter (changesAfter place meters) ∧
      barStop place meter (changesAfter place meters) ≤ place + 1020 := by
  have hnearness := nearness_eq
  obtain ⟨hnonneg, hle⟩ := quarters_mem h
  rcases barStop_cases place meter (changesAfter place meters) with
    hfull | ⟨c, rest, hleft, hbefore, hcut⟩
  · rw [hfull]
    constructor <;> linarith
  · have hafter := lt_beat_of_changesAfter hleft
    rw [hcut]
    constructor <;> linarith

theorem stop_mem_barsFrom {fuel : Nat} {stop place : Rat} {meter : Meter} {key : Key}
    {meters : List (BeatChange Rat Meter)} {keys : List (BeatChange Rat Key)}
    (hmeter : meter.numerator ≤ 255) (hmeters : ∀ c ∈ meters, c.value.numerator ≤ 255) {bar : Bar Rat}
    (hbar : bar ∈ barsFrom fuel stop place meter key meters keys) :
    bar.start ≤ bar.stop ∧ bar.stop ≤ bar.start + 1020 := by
  induction fuel generalizing place meter key meters keys with
  | zero => exact nomatch hbar
  | succ fuel ih =>
    have htaken := holds_takeChanges (P := fun m : Meter => m.numerator ≤ 255) place none hmeter hmeters
    simp only [barsFrom, left_takeChanges] at hbar
    rcases List.mem_cons.mp hbar with rfl | hbar
    · exact barStop_mem htaken place meters
    · exact ih htaken (forall_changesAfter (P := fun m : Meter => m.numerator ≤ 255) hmeters)
        ((List.mem_ite_nil_left ..).mp hbar).2

theorem stop_mem_barGrid {p : Performance Rat} (hp : p.MetersFit) {stop : Rat} {bar : Bar Rat}
    (hbar : bar ∈ barGrid p stop) : bar.start ≤ bar.stop ∧ bar.stop ≤ bar.start + 1020 :=
  stop_mem_barsFrom hp.1 (List.forall_mem_map.mpr hp.2) hbar

/-! ## Measures of a voice -/

theorem measures_lineBreak (later : List Element) :
    ((Element.lineBreak :: later).splitOnP Element.isBarEnd).map written =
      (later.splitOnP Element.isBarEnd).map written := by
  rw [List.splitOnP_cons_eq_if_modifyHead, if_neg (by decide)]
  cases later.splitOnP Element.isBarEnd with
  | nil => rfl
  | cons first rest => rfl

theorem barEnd_cases (barsPerLine number : Nat) (isLast : Bool) :
    ∃ last tail, barEnd barsPerLine number isLast = last :: tail ∧ last.isBarEnd = true ∧
      (tail = [] ∨ tail = [.lineBreak]) := by
  unfold barEnd
  by_cases hlast : isLast = true
  · exact ⟨.finalBar, [], if_pos hlast, rfl, .inl rfl⟩
  · rw [if_neg hlast]
    by_cases hbreak : barsPerLine ≠ 0 ∧ number % barsPerLine = 0
    · exact ⟨.barLine, [.lineBreak], if_pos hbreak, rfl, .inr rfl⟩
    · exact ⟨.barLine, [], if_neg hbreak, rfl, .inl rfl⟩

theorem measures_barEnd {elements : List Element} (hquiet : elements.filter Element.isBarEnd = [])
    (barsPerLine number : Nat) (isLast : Bool) (later : List Element) :
    ((elements ++ barEnd barsPerLine number isLast ++ later).splitOnP Element.isBarEnd).map written =
      written elements :: (later.splitOnP Element.isBarEnd).map written := by
  obtain ⟨last, tail, hend, hlast, htail⟩ := barEnd_cases barsPerLine number isLast
  have hone : elements.splitOnP Element.isBarEnd = [elements] := by
    apply List.splitOnP_eq_singleton
    intro e he
    simpa using List.filter_eq_nil_iff.mp hquiet e he
  rw [hend, List.append_assoc, List.cons_append, List.splitOnP_append_cons _ _ hlast, hone,
    List.singleton_append, List.map_cons]
  rcases htail with rfl | rfl
  · rw [List.nil_append]
  · rw [List.singleton_append, measures_lineBreak]

theorem apart_of_isEighths {places : List Rat} (h : ∀ x ∈ places, IsEighths x) : Apart places := by
  intro x hx y hy
  refine ((h x hx).eq_or_apart (h y hy)).imp_right fun hfar => ?_
  linarith

/-- Measure after measure, a voice is as long as its bars; nothing comes after the last one. -/
theorem measures_layBars {places : List Rat} (hplaces : ∀ x ∈ places, IsEighths x)
    (barsPerLine number : Nat) {bars : List (Bar Rat)} {s : VoiceState Rat}
    (hbars : ∀ bar ∈ bars, bar.start ∈ places ∧ bar.stop ∈ places)
    (hlengths : ∀ bar ∈ bars, bar.start ≤ bar.stop ∧ bar.stop ≤ bar.start + 1020)
    (hslots : ∀ slot ∈ s.slots, slot.start ∈ places ∧ slot.stop ∈ places) :
    ((layBars barsPerLine number bars s).1.splitOnP Element.isBarEnd).map written =
      bars.map Bar.length ++ [0] := by
  induction bars generalizing number s with
  | nil => rfl
  | cons bar rest ih =>
    obtain ⟨⟨hstart, hstop⟩, hbars⟩ := List.forall_mem_cons.mp hbars
    obtain ⟨⟨hle, hlong⟩, hlengths⟩ := List.forall_mem_cons.mp hlengths
    have hleft : ∀ slot ∈ (layBar bar s).2.slots, slot.start ∈ places ∧ slot.stop ∈ places := by
      intro slot hslot
      rw [slots_layBar] at hslot
      exact hslots slot ((barStretches_left _ bar _ _).subset hslot)
    have hfilled : Leads places bar.start (stretchesOf bar s.slots).1 bar.stop :=
      leads_barStretches (apart_of_isEighths hplaces) hstop hslots hstart hle (by omega)
    have hwritten : written (layBar bar s).1 = bar.length := by
      rw [written_layBar, hfilled.sum_written hplaces (by linarith)]
      rfl
    simp only [layBars]
    rw [measures_barEnd (notesInBars_layBar bar 0 s).2, ih (number + 1) hbars hlengths hleft,
      hwritten]
    rfl

/-! ## Tunes -/

/-- Bars and slots start and stop at whole numbers of eighths. -/
structure Performance.OnEighths (p : Performance Rat) : Prop where
  bars : ∀ bar ∈ sharedBars p, IsEighths bar.start ∧ IsEighths bar.stop
  slots : ∀ slots ∈ (voiceSlots p).value, ∀ slot ∈ slots,
    IsEighths slot.start ∧ IsEighths slot.stop

theorem exists_layVoice {settings : TuneSettings} {p : Performance Rat} {voice : Voice}
    (h : voice ∈ (tuneOf settings p).value.voices) :
    ∃ slots ∈ (voiceSlots p).value, ∃ id cues, voice = (layVoice id slots (sharedBars p)
      (p.key.getD .cMajor) settings.barsPerLine cues).1 := by
  have hvoices : (tuneOf settings p).value.voices =
    (layVoices p settings.barsPerLine (voiceSlots p).value).1 := rfl
  rw [hvoices] at h
  unfold sharedBars
  generalize (voiceSlots p).value = timelines at *
  cases timelines with
  | nil => cases h
  | cons first others =>
    rcases List.mem_cons.mp h with rfl | h
    · exact ⟨first, List.mem_cons_self, _, _, rfl⟩
    · obtain ⟨⟨slots, i⟩, hslots, rfl⟩ := List.mem_map.mp h
      exact ⟨slots, List.mem_cons_of_mem _ (List.fst_mem_of_mem_zipIdx hslots), _, _, rfl⟩

theorem isEighths_of_mem_boundaries {bars : List (Bar Rat)} {slots : List (Slot Rat)}
    (hbars : ∀ bar ∈ bars, IsEighths bar.start ∧ IsEighths bar.stop)
    (hslots : ∀ slot ∈ slots, IsEighths slot.start ∧ IsEighths slot.stop) :
    ∀ x ∈ boundaries bars slots, IsEighths x := by
  intro x hx
  rcases List.mem_append.mp hx with hx | hx
  · obtain ⟨bar, hbar, hx⟩ := List.mem_flatMap.mp hx
    rcases List.mem_pair.mp hx with rfl | rfl
    · exact (hbars bar hbar).1
    · exact (hbars bar hbar).2
  · obtain ⟨slot, hslot, hx⟩ := List.mem_flatMap.mp hx
    rcases List.mem_pair.mp hx with rfl | rfl
    · exact (hslots slot hslot).1
    · exact (hslots slot hslot).2

/-- Over exact numbers, and where bars and slots are on eighths, what every voice of a tune writes
between two ends of bars is exactly as long as the bar. -/
theorem measures_tuneOf (settings : TuneSettings) {p : Performance Rat} (hmeters : p.MetersFit)
    (hgrid : p.OnEighths) : ∀ voice ∈ (tuneOf settings p).value.voices,
      voice.measures = (sharedBars p).map Bar.length ++ [0] := by
  intro voice hvoice
  obtain ⟨slots, hslots, id, cues, rfl⟩ := exists_layVoice hvoice
  have hplaces := isEighths_of_mem_boundaries hgrid.bars (hgrid.slots slots hslots)
  exact measures_layBars hplaces settings.barsPerLine 1
    (s := ⟨p.key.getD .cMajor, [], none, slots, cues⟩)
    (fun bar hbar => ⟨start_mem_boundaries hbar, stop_mem_boundaries hbar⟩)
    (fun bar hbar => stop_mem_barGrid hmeters hbar) (fun slot hslot => slot_mem_boundaries hslot)

/-- A note over a bar line that another one cuts short. -/
theorem measures_tuneOf_tied :
    let held : PlayedNote Rat := ⟨0, [.midi 60], 5 / 2, 4, 1, none, none, none, []⟩
    let short : PlayedNote Rat := ⟨1, [.midi 64], 5, 5 / 8, 1, none, none, none, []⟩
    let lead : PlayedPart Rat :=
      ⟨"lead", ⟨none, .synth, []⟩, [], [held, short], .once, none⟩
    let song : Performance Rat := ⟨formatName, formatVersion, 60, .common, none, .constant 60,
      [], [], ⟨none, none, none⟩, [], [], [lead], [], [], []⟩
    song.MetersFit ∧ song.OnEighths ∧ (sharedBars song).map Bar.length = [4, 4] ∧
      (tuneOf .standard song).value.voices.map Voice.measures = [[4, 4, 0]] := by
  intro held short lead song
  have hmeters : song.MetersFit := ⟨by decide, nofun⟩
  have hvoices : (voiceSlots song).value = [(slots song.tempo "sequences[0]" lead).value] := rfl
  have hplaces : (slots song.tempo "sequences[0]" lead).value.map
      (fun slot => (slot.start, slot.stop)) = [(5 / 2, 5), (5, 45 / 8)] := by
    rw [value_slots, heardNotes, sortByTime, List.mergeSort_of_pairwise (by decide +kernel)]
    decide +kernel
  generalize (slots song.tempo "sequences[0]" lead).value = slots at hvoices hplaces
  have hbars := sharedBars_single hvoices hplaces
  have hgrid : song.OnEighths := by
    constructor
    · rw [hbars]
      decide +kernel
    · rw [hvoices]
      have hpairs : ∀ pair ∈ slots.map fun slot => (slot.start, slot.stop),
          IsEighths pair.1 ∧ IsEighths pair.2 := by
        rw [hplaces]
        decide +kernel
      exact List.forall_mem_singleton.mpr (List.forall_mem_map.mp hpairs)
  have hlengths : (sharedBars song).map Bar.length = [4, 4] := by
    rw [hbars]
    decide +kernel
  have hmeasures : ∀ measures ∈ (tuneOf .standard song).value.voices.map Voice.measures,
      measures = [4, 4, 0] := by
    refine List.forall_mem_map.mpr fun voice hvoice => ?_
    rw [measures_tuneOf .standard hmeters hgrid voice hvoice, hlengths]
    rfl
  have hone : ((tuneOf .standard song).value.voices.map Voice.measures).length = 1 := by
    rw [List.length_map]
    show (layVoices song _ (voiceSlots song).value).1.length = 1
    rw [hvoices]
    rfl
  exact ⟨hmeters, hgrid, hlengths, List.eq_replicate_of_mem hmeasures |>.trans (by rw [hone]; rfl)⟩

end Partitura
