import Mathlib.Data.Rat.Floor
import Partitura.Proofs.Midi.Notes
import Partitura.Proofs.Performance.OnBeat

/-!
# Musical notes in tracks

A note that is written in beats stands in its track where a metronome would have it: its
ticks are its beats times the ticks of a beat, rounded, whatever the tempo of the score is
and wherever it changes. Ticks are counted in 32 bits, and a note beyond them stands at the
last one.
-/

namespace Partitura.Midi

open Number

/-- The tick nearest to a beat, as far as 32 bits can count. -/
def beatTick (ticksPerBeat : Nat) (x : Rat) : Nat :=
  min (roundHalfAway (x * ticksPerBeat)).toNat 4294967295

/-! ## Rounding -/

theorem beatTick_mono (ticksPerBeat : Nat) {x y : Rat} (hx : 0 ≤ x) (hxy : x ≤ y) :
    beatTick ticksPerBeat x ≤ beatTick ticksPerBeat y := by
  have hticks : (0 : Rat) ≤ ticksPerBeat := Nat.cast_nonneg _
  have hle : x * ticksPerBeat ≤ y * ticksPerBeat := mul_le_mul_of_nonneg_right hxy hticks
  unfold beatTick
  rw [roundHalfAway_of_nonneg (mul_nonneg hx hticks),
    roundHalfAway_of_nonneg (mul_nonneg (hx.trans hxy) hticks)]
  have hfloor := Int.floor_le_floor (add_le_add_left hle (1 / 2))
  omega

theorem tickAtBeat_eq (clock : Clock Rat) (x : Rat) :
    clock.tickAtBeat x = beatTick clock.ticksPerBeat x := by
  have hproduct : x * Scalar.ofInt clock.ticksPerBeat = x * clock.ticksPerBeat := rfl
  have hmax (n : Int) : Scalar.maxOf (n : Rat) 0 = ((max n 0 : Int) : Rat) := by
    rw [maxOf_eq_max]
    push_cast
    rfl
  unfold Clock.tickAtBeat beatTick
  rw [hproduct]
  show Scalar.word (Scalar.maxOf ((roundHalfAway _ : Int) : Rat) 0) = _
  rw [hmax, word_intCast]
  omega

theorem noteTicks_eq (clock : Clock Rat) {n : PlayedNote Rat} {x y : Rat} (hstart : 0 ≤ n.start)
    (hstop : 0 ≤ n.stop) (hx : clock.tempo.beatAtSeconds n.start = x)
    (hy : clock.tempo.beatAtSeconds n.stop = y) (h0 : 0 ≤ x) (hxy : x ≤ y) :
    noteTicks clock n = (beatTick clock.ticksPerBeat x, beatTick clock.ticksPerBeat y) := by
  have htick {s : Rat} (hs : 0 ≤ s) :
      clock.tick s = beatTick clock.ticksPerBeat (clock.tempo.beatAtSeconds s) := by
    rw [Clock.tick, maxOf_eq_max, max_eq_left hs, tickAtBeat_eq]
  simp only [noteTicks, htick hstart, htick hstop, hx, hy]
  rw [max_eq_left (beatTick_mono _ h0 hxy)]

/-! ## Tracks -/

/-- A track in which a note of a part is switched on at one tick and off at another one. -/
def StandsAt (settings : Settings) (clock : Clock Rat) (channel : Nat)
    (notes : List (PlayedNote Rat)) (note : PlayedNote Rat) (ticks : Nat × Nat)
    (stream : List (Nat × Bytes)) : Prop :=
  ∃ labelled k, labelled.map Prod.snd = stream ∧ Attributed settings clock channel notes labelled ∧
    notes[k]? = some note ∧
    ∀ e ∈ labelled, (e.1 = .on k → e.2.1 = ticks.1) ∧ (e.1 = .off k → e.2.1 = ticks.2)

theorem Attributed.ticks {settings : Settings} {clock : Clock Rat} {channel : Nat}
    {notes : List (PlayedNote Rat)} {labelled : List (Label × Nat × Bytes)}
    (h : Attributed settings clock channel notes labelled) {k : Nat} {note : PlayedNote Rat}
    (hk : notes[k]? = some note) {e : Label × Nat × Bytes} (he : e ∈ labelled) :
    (e.1 = .on k → e.2.1 = (noteTicks clock note).1) ∧
      (e.1 = .off k → e.2.1 = (noteTicks clock note).2) := by
  have hmem (hlabel : e.1.note? = some k) :
      e ∈ (noteOns settings clock channel note).map (Label.on k, ·) ∨
        e ∈ (noteOffs settings clock channel note).map (Label.off k, ·) := by
    rw [← List.mem_append, ← h.each k note hk]
    exact List.mem_filter.mpr ⟨he, beq_iff_eq.mpr hlabel⟩
  constructor
  · intro hon
    rcases hmem (by rw [hon]; rfl) with hmem | hmem
    · obtain ⟨d, hd, rfl⟩ := List.mem_map.mp hmem
      obtain ⟨q, -, rfl⟩ := List.mem_map.mp hd
      rfl
    · obtain ⟨d, -, rfl⟩ := List.mem_map.mp hmem
      cases hon
  · intro hoff
    rcases hmem (by rw [hoff]; rfl) with hmem | hmem
    · obtain ⟨d, -, rfl⟩ := List.mem_map.mp hmem
      cases hoff
    · obtain ⟨d, hd, rfl⟩ := List.mem_map.mp hmem
      obtain ⟨q, -, rfl⟩ := List.mem_map.mp hd
      rfl

theorem standsAt_partEvents (settings : Settings) (clock : Clock Rat) (perf : Performance Rat)
    (i channel : Nat) {part : PlayedPart Rat} {note : PlayedNote Rat}
    (h : note ∈ part.expandedNotes) :
    StandsAt settings clock channel (orderedNotes part) note (noteTicks clock note)
      (written (partEvents settings clock perf i part channel).value) := by
  obtain ⟨k, hk⟩ := List.mem_iff_getElem?.mp (List.mem_mergeSort.mpr h : note ∈ orderedNotes part)
  have hattributed := attributed_labelledStream settings clock perf i part channel
  exact ⟨_, k, map_snd_labelledStream settings clock perf i part channel, hattributed, hk,
    fun _ he => hattributed.ticks hk he⟩

theorem expandedNotes_eq {part : PlayedPart Rat}
    (h : ∀ span period, part.repetition ≠ .finite span period) :
    part.expandedNotes = part.notes := by
  unfold PlayedPart.expandedNotes
  split
  · rename_i span period hrepetition
    exact absurd hrepetition (h span period)
  · rfl

/-- A note whose length is written in beats stops that many beats after it starts, and one
whose time is written in beats starts there. If its part is not unrolled, the note stands in
the track at the ticks of these beats. -/
theorem standsAt_perform (s : Score Rat) {i j : Nat} {p : Part Rat} {n : Note Rat}
    (hp : s.partList[i]? = some p) (hn : p.noteList[j]? = some n) :
    ∃ part note, (perform s).parts[i]? = some part ∧ part.notes[j]? = some note ∧
      (∀ d, IsBeats (perform s).meter.quarters n.duration d →
        (perform s).tempo.beatAtSeconds note.stop =
          (perform s).tempo.beatAtSeconds note.start + d) ∧
      (∀ b, IsBeats (perform s).meter.quarters n.time b →
        (perform s).tempo.beatAtSeconds note.start = b) ∧
      (p.looping.isOff = true → part.repetition = .once) ∧
      ((∀ span period, part.repetition ≠ .finite span period) → ∀ settings b d,
        IsBeats (perform s).meter.quarters n.time b →
        IsBeats (perform s).meter.quarters n.duration d →
        ∃ channel events, (assignChannels 0 (perform s).parts)[i]? = some channel ∧
          (tracks settings (perform s)).value[i + 1]? = some events ∧
          StandsAt settings ⟨(perform s).tempo, settings.ticksPerBeat⟩ channel (orderedNotes part)
            note (beatTick settings.ticksPerBeat b, beatTick settings.ticksPerBeat (b + d))
            (written events)) := by
  have hpart := getElem?_parts hp
  have hnote := getElem?_notes s (perform s).timeLine i hn
  generalize hplayed : (playNote (perform s).timeLine (entryPath "sequences" i) j n).value = note
    at hnote
  have hstart (b : Rat) (hb : IsBeats (perform s).meter.quarters n.time b) :
      (perform s).tempo.beatAtSeconds note.start = b :=
    hplayed ▸ beat_start (laid_tempo s) _ j hb
  have hstop (d : Rat) (hd : IsBeats (perform s).meter.quarters n.duration d) :
      (perform s).tempo.beatAtSeconds note.stop =
        (perform s).tempo.beatAtSeconds note.start + d :=
    hplayed ▸ beat_stop (laid_tempo s) _ j hd
  refine ⟨_, _, hpart, hnote, hstop, hstart, repetition_playPart s _ i, ?_⟩
  intro hrepetition settings b d hb hd
  obtain ⟨channel, hchannel, -⟩ := getElem?_assignChannels hpart 0
  refine ⟨channel, _, hchannel, getElem?_tracks settings _ hpart hchannel, ?_⟩
  have hmem := List.mem_of_getElem? hnote
  rw [← expandedNotes_eq hrepetition] at hmem
  have hticks := noteTicks_eq ⟨(perform s).tempo, settings.ticksPerBeat⟩
    (hplayed ▸ start_nonneg _ _ j n) (hplayed ▸ stop_nonneg _ _ j n)
    (hstart b hb) ((hstop d hd).trans (congrArg (· + d) (hstart b hb))) hb.2
    (le_add_of_nonneg_right hd.2)
  rw [← hticks]
  exact standsAt_partEvents settings _ (perform s) i channel hmem

/-- Three quarters from the second beat of the second bar on, the tempo changing before and
within the note. -/
theorem standsAt_perform_song :
    let note : Note Rat := .sounding (.single (.name "A4")) (.text "1:1") (.text "2n.")
    let lead : Part Rat := (Part.labelled "lead" (some [note])).playing "lead"
    let song : Score Rat := { Score.empty with
      bpm := some 90
      meter := some "3/4"
      tempoMap := [⟨.text "1:0", 150⟩, ⟨.seconds 3, 45⟩]
      parts := some [lead] }
    song.partList[0]? = some lead ∧ lead.noteList[0]? = some note ∧
    IsBeats (perform song).meter.quarters note.time 4 ∧
    IsBeats (perform song).meter.quarters note.duration 3 ∧
    ∃ part played channel events, (perform song).parts[0]? = some part ∧
      part.notes[0]? = some played ∧
      (perform song).tempo.beatAtSeconds played.start = 4 ∧
      (perform song).tempo.beatAtSeconds played.stop = 7 ∧
      (tracks Settings.standard (perform song)).value[1]? = some events ∧
      StandsAt Settings.standard ⟨(perform song).tempo, 480⟩ channel (orderedNotes part) played
        (1920, 3360) (written events) := by
  intro note lead song
  have hmeter : (perform song).meter = ⟨3, 4⟩ :=
    show (baseMeter (some "3/4")).value = ⟨3, 4⟩ by decide +kernel
  have hamount : WrittenTime.amount? (Meter.quarters ⟨3, 4⟩ : Rat) (.text "1:1") =
      some (.beats 4) := by decide +kernel
  have hlength : WrittenTime.amount? (Meter.quarters ⟨3, 4⟩ : Rat) (.text "2n.") =
      some (.beats 3) := by decide +kernel
  have htime : IsBeats (perform song).meter.quarters note.time 4 := by
    rw [hmeter]
    exact ⟨hamount, by decide⟩
  have hduration : IsBeats (perform song).meter.quarters note.duration 3 := by
    rw [hmeter]
    exact ⟨hlength, by decide⟩
  obtain ⟨part, played, hpart, hplayed, hstop, hstart, honce, hticks⟩ :=
    standsAt_perform song (i := 0) (j := 0) (p := lead) (n := note) rfl rfl
  have hrepetition := honce rfl
  obtain ⟨channel, events, -, hevents, hstands⟩ := hticks (by rw [hrepetition]; exact nofun)
    Settings.standard 4 3 htime hduration
  have hbeats : beatTick 480 4 = 1920 ∧ beatTick 480 (4 + 3) = 3360 := by
    decide +kernel
  have h7 : (perform song).tempo.beatAtSeconds played.stop = 7 := by
    rw [hstop 3 hduration, hstart 4 htime]
    norm_num
  refine ⟨rfl, rfl, htime, hduration, part, played, channel, events, hpart, hplayed,
    hstart 4 htime, h7, hevents, ?_⟩
  have hstands : StandsAt Settings.standard ⟨(perform song).tempo, 480⟩ channel
      (orderedNotes part) played (beatTick 480 4, beatTick 480 (4 + 3)) (written events) := hstands
  rwa [hbeats.1, hbeats.2] at hstands

end Partitura.Midi
