import Partitura.Proofs.Midi.Part
import Partitura.Proofs.Midi.ReadBack

/-!
# Encoded performances are read back

No performance puts an event into a track that would close it, and every tick
fits into 32 bits. So what a reader finds in the file of a performance is what
was put into its tracks.
-/

namespace Partitura.Midi

/-- An event that a file can hold inside a track, at a tick of 32 bits. -/
structure TimedEvent.Regular (e : TimedEvent) : Prop where
  tick : e.tick < 2 ^ 32
  mark : ∀ kind data, e.event = .mark kind data → kind ≠ .trackEnd

/-- Where an event does not close the track, only its numbers can be too large. -/
theorem TimedEvent.Regular.fits {e : TimedEvent} (h : e.Regular) {width : Nat}
    (htick : e.tick < 128 ^ width)
    (hdata : ∀ kind data, e.event = .mark kind data →
      data.length < 2 ^ 32 ∧ data.length < 128 ^ width) : e.Fits width :=
  ⟨htick, fun kind data he => ⟨h.mark kind data he, hdata kind data he⟩⟩

theorem regular_send {tick : Nat} (h : tick < 2 ^ 32) (channel : Nat) (message : Message) :
    (TimedEvent.send tick channel message).Regular := ⟨h, nofun⟩

theorem regular_mark {tick : Nat} {data : Bytes} (h : tick < 2 ^ 32) (kind : Mark)
    (hkind : kind ≠ .trackEnd) : TimedEvent.Regular ⟨tick, .mark kind data⟩ := by
  refine ⟨h, fun kind' data' he => ?_⟩
  cases he
  exact hkind

theorem regular_text {tick : Nat} (h : tick < 2 ^ 32) (kind : Mark) (hkind : kind ≠ .trackEnd)
    (s : String) : (TimedEvent.text tick kind s).Regular := regular_mark h kind hkind

theorem regular_meterEvent {tick : Nat} (h : tick < 2 ^ 32) (m : Meter) :
    (meterEvent tick m).Regular := regular_mark h .meter nofun

theorem regular_keyEvent {tick : Nat} (h : tick < 2 ^ 32) (k : Key) :
    (keyEvent tick k).Regular := regular_mark h .key nofun

/-! ## Events of a performance -/

section Events

variable {α : Type} [Scalar α] [LawfulScalar α]

theorem word_lt (x : α) : Scalar.word x < 2 ^ 32 := by
  have h := LawfulScalar.wholeWithin_mem 0 4294967295 x (by decide)
  unfold Scalar.word
  omega

theorem Clock.tickAtBeat_lt (c : Clock α) (beat : α) : c.tickAtBeat beat < 2 ^ 32 := word_lt _

theorem Clock.tick_lt (c : Clock α) (seconds : α) : c.tick seconds < 2 ^ 32 := word_lt _

theorem noteTicks_lt (clock : Clock α) (n : PlayedNote α) :
    (noteTicks clock n).1 < 2 ^ 32 ∧ (noteTicks clock n).2 < 2 ^ 32 := by
  have hstart := clock.tick_lt n.start
  have hstop := clock.tick_lt n.stop
  exact ⟨hstart, Nat.max_lt.mpr ⟨hstop, hstart⟩⟩

theorem regular_conductorEvents (p : Performance α) (clock : Clock α) :
    ∀ e ∈ conductorEvents p clock, e.Regular := by
  have hzero : 0 < 2 ^ 32 := by decide
  intro e he
  simp only [conductorEvents, List.mem_append, List.mem_map, List.mem_singleton,
    Option.mem_toList, Option.map_eq_some_iff] at he
  rcases he with ((((((⟨name, -, rfl⟩ | rfl) | ⟨key, -, rfl⟩) | ⟨seg, -, rfl⟩) | ⟨c, -, rfl⟩)
    | ⟨c, -, rfl⟩) | ⟨r, -, rfl⟩)
  · exact regular_text hzero .trackName nofun name
  · exact regular_meterEvent hzero p.meter
  · exact regular_keyEvent hzero key
  · exact regular_mark (clock.tickAtBeat_lt seg.beat) .tempo nofun
  · exact regular_meterEvent (clock.tick_lt c.seconds) c.value
  · exact regular_keyEvent (clock.tick_lt c.seconds) c.value
  · refine regular_text (clock.tick_lt r.time) _ ?_ r.text
    cases r.kind <;> exact nofun

theorem regular_noteGroup (settings : Settings) (clock : Clock α) (path : String)
    (channel : Nat) (n : PlayedNote α) (centred : Bool) :
    ∀ e ∈ noteGroup settings clock path channel n centred, e.Regular := by
  obtain ⟨hstart, hstop⟩ := noteTicks_lt clock n
  intro e he
  simp only [noteGroup, value_noteEvents, bendEvents, onEvents, changeEvents, offEvents,
    List.mem_append, Option.mem_toList, Option.map_eq_some_iff, List.mem_map,
    List.mem_flatMap] at he
  rcases he with ((((⟨cents, -, rfl⟩ | ⟨pitch, -, rfl⟩) | ⟨m, -, he⟩) | ⟨pitch, -, rfl⟩) | he)
  · exact regular_send hstart _ _
  · exact regular_send hstart _ _
  · obtain ⟨message, -, rfl⟩ := mem_modulationEvents he
    exact regular_send (clock.tick_lt m.time) _ message
  · exact regular_send hstop _ _
  · rw [mem_recentreEvent he]
    exact regular_send hstop _ _

theorem regular_partEvents (settings : Settings) (clock : Clock α) (perf : Performance α)
    (i : Nat) (p : PlayedPart α) (channel : Nat) :
    ∀ e ∈ (partEvents settings clock perf i p channel).value, e.Regular := by
  have hzero : 0 < 2 ^ 32 := by decide
  intro e he
  rw [value_partEvents, List.mem_append, List.mem_append, automationEvents, List.mem_flatMap,
    List.mem_flatMap] at he
  rcases he with (he | ⟨x, -, he⟩) | ⟨a, -, he⟩
  · rcases List.mem_cons.mp he with rfl | he
    · exact regular_text hzero .trackName nofun p.label
    · rw [List.mem_singleton.mp he]
      exact regular_send hzero _ _
  · exact regular_noteGroup settings clock _ channel x.1 x.2 e he
  · obtain ⟨message, -, rfl⟩ := mem_automationEvent he
    exact regular_send (clock.tick_lt a.time) channel message

theorem regular_tracks (settings : Settings) (p : Performance α) :
    ∀ t ∈ (tracks settings p).value, ∀ e ∈ t, e.Regular := by
  intro t ht
  rcases List.mem_cons.mp ht with rfl | ht
  · exact regular_conductorEvents p _
  · obtain ⟨part, i, rfl⟩ := Outcome.mem_collect ht
    exact regular_partEvents _ _ _ _ _ _

end Events

/-! ## Sizes -/

theorem length_deltas_le (last : Nat) {bound : Nat} {events : List (Nat × Bytes)}
    (h : ∀ e ∈ events, e.1 < 2 ^ 32 ∧ e.2.length ≤ bound) :
    (deltas last events).length ≤ events.length * (bound + 5) := by
  induction events generalizing last with
  | nil => simp [deltas]
  | cons e rest ih =>
    obtain ⟨tick, data⟩ := e
    obtain ⟨htick, hdata⟩ := h (tick, data) (List.mem_cons_self ..)
    dsimp only at htick hdata
    have hquantity : (quantity (tick - last)).length ≤ 5 := length_quantity_le_iff.mpr (by omega)
    have hrest := ih tick fun d hd => h d (List.mem_cons_of_mem _ hd)
    simp only [deltas, List.length_append, List.length_cons, Nat.succ_mul]
    omega

theorem length_trackPayload_le {bound : Nat} {events : List TimedEvent}
    (hregular : ∀ e ∈ events, e.Regular) (hbound : ∀ e ∈ events, e.event.bytes.length ≤ bound) :
    (trackPayload events).length ≤ events.length * (bound + 5) + 4 := by
  have hperm := List.mergeSort_perm events fun a b => decide (a.tick ≤ b.tick)
  have hwritten : ∀ d ∈ (events.mergeSort fun a b => decide (a.tick ≤ b.tick)).map
      fun e => (e.tick, e.event.bytes), d.1 < 2 ^ 32 ∧ d.2.length ≤ bound := by
    intro d hd
    obtain ⟨e, he, rfl⟩ := List.mem_map.mp hd
    have he := hperm.mem_iff.mp he
    exact ⟨(hregular e he).tick, hbound e he⟩
  have hdeltas := length_deltas_le 0 hwritten
  have hquantity : (quantity 0).length ≤ 1 := length_quantity_le_iff.mpr (by decide)
  rw [List.length_map, hperm.length_eq] at hdeltas
  rw [trackPayload_eq_closed, closed, List.length_append, List.length_append, markBytes_trackEnd]
  simp only [List.length_cons, List.length_nil]
  omega

theorem length_bytes_message (channel : Nat) (m : Message) : (m.bytes channel).length ≤ 3 := by
  cases m <;> simp [Message.bytes]

theorem length_markBytes_le (code : Nat) (data : Bytes) :
    (markBytes code data).length ≤ data.length + 7 := by
  have hquantity : (quantity (data.length % 4294967296)).length ≤ 5 :=
    length_quantity_le_iff.mpr (by omega)
  simp only [markBytes, List.length_append, List.length_cons, List.length_nil]
  omega

theorem length_bytes_le {bound : Nat} {e : Event}
    (h : ∀ kind data, e = .mark kind data → data.length ≤ bound) : e.bytes.length ≤ bound + 7 := by
  cases e with
  | channel number message =>
    have hlength := length_bytes_message number message
    simp only [Event.bytes]
    omega
  | mark kind data =>
    have hlength := length_markBytes_le kind.code data
    have hdata := h kind data rfl
    simp only [Event.bytes]
    omega

/-! ## Files of performances -/

theorem length_le_deltas (last : Nat) {events : List (Nat × Bytes)} {e : Nat × Bytes}
    (h : e ∈ events) : e.2.length ≤ (deltas last events).length := by
  induction events generalizing last with
  | nil => cases h
  | cons d rest ih =>
    obtain ⟨tick, data⟩ := d
    simp only [deltas, List.length_append]
    rcases List.mem_cons.mp h with rfl | h
    · show data.length ≤ _
      omega
    · have hle := ih tick h
      omega

theorem length_data_le {events : List TimedEvent} {e : TimedEvent} (he : e ∈ events)
    {kind : Mark} {data : Bytes} (hdata : e.event = .mark kind data) :
    data.length ≤ (trackPayload events).length := by
  have hmem : (e.tick, e.event.bytes) ∈ inOrder (events.map fun e => (e.tick, e.event.bytes)) :=
    List.mem_mergeSort.mpr (List.mem_map.mpr ⟨e, he, rfl⟩)
  have hle := length_le_deltas 0 hmem
  have hbytes : data.length ≤ e.event.bytes.length := by
    rw [hdata]
    simp only [Event.bytes, markBytes, List.length_append]
    omega
  simp only [trackPayload, payload, List.length_append]
  dsimp only at hle
  omega

section Files

variable {α : Type} [Scalar α] [LawfulScalar α]

/-- A file is read to its last byte. It has the head that its performance calls for, and
in each track the events that were put into it, stably sorted by their ticks. -/
theorem readFile_encode (settings : Settings) (p : Performance α)
    (hdivision : settings.ticksPerBeat < 2 ^ 16) (hparts : p.parts.length ≤ 65534)
    (hsize : ∀ t ∈ (tracks settings p).value, (trackPayload t).length < 2 ^ 32) :
    ∃ read, readFile 5 (encode settings p).value =
        some ⟨1, p.parts.length + 1, settings.ticksPerBeat, read⟩ ∧
      List.Forall₂ TrackReadAs (tracks settings p).value read := by
  have hlength := length_tracks settings p
  have hcount : (tracks settings p).value.length < 2 ^ 16 := by omega
  have hfits : ∀ t ∈ (tracks settings p).value, ∀ e ∈ t, e.Fits (4 + 1) := by
    intro t ht e he
    have hlt := hsize t ht
    have hregular := regular_tracks settings p t ht e he
    have htick := hregular.tick
    refine hregular.fits (by omega) fun kind data hdata => ?_
    have hle := length_data_le he hdata
    omega
  obtain ⟨read, hread, hall⟩ := readFile_file hdivision hcount hfits hsize
  rw [hlength] at hread
  exact ⟨read, hread, hall⟩

end Files

theorem readFile_encode_song :
    let chord : PlayedNote Rat := ⟨0, [.midi 60, .name "E4"], 0.5, 1, 0.8, none, none, some 3,
      [⟨.pitchBend, none, 0.5, 0.75⟩]⟩
    let lead : PlayedPart Rat := ⟨"lead", ⟨none, .synth, []⟩, [], [chord], .once, none⟩
    let song : Performance Rat := ⟨formatName, formatVersion, 120, .common, none, .constant 120,
      [], [], ⟨none, none, none⟩, [], [], [lead], [], [⟨"verse", 1, .marker⟩], []⟩
    (480 < 2 ^ 16 ∧ song.parts.length ≤ 65534 ∧
      ∀ t ∈ (tracks .standard song).value, (trackPayload t).length < 2 ^ 32) ∧
    ∃ read, readFile 5 (encode .standard song).value = some ⟨1, 2, 480, read⟩ ∧
      List.Forall₂ TrackReadAs (tracks .standard song).value read := by
  intro chord lead song
  have hnotes : orderedNotes lead = [chord] := by
    simp [orderedNotes, sortByTime, PlayedPart.expandedNotes, lead]
  have hgroups (clock : Clock Rat) (channel : Nat) :
      (orderedNotes lead).zip (recentred clock channel lead) = [(chord, false)] := by
    simp [recentred, hnotes, recentres, bendSpan, detuning?, chord]
  have hlabel : lead.label = "lead" := rfl
  have hchannel : lead.midiChannel = none := rfl
  have hsmall : ∀ t ∈ (tracks .standard song).value, t.length ≤ 7 ∧
      ∀ e ∈ t, ∀ kind data, e.event = .mark kind data → data.length ≤ 5 := by
    simp [tracks, value_partEvents, hgroups, song, hlabel, hchannel, chord, conductorEvents,
      assignChannels, openingEvents, noteGroup, value_noteEvents, bendEvents, onEvents,
      changeEvents, offEvents, modulationEvents, automationEvents, TempoMap.segments,
      TempoMap.constant, detuning?, recentreEvent, TimedEvent.send, TimedEvent.text,
      TimedEvent.tempo, meterEvent, TimedEvent.meter, big24, big16]
    exact ⟨by decide +kernel, by decide +kernel⟩
  have hsize : ∀ t ∈ (tracks .standard song).value, (trackPayload t).length < 2 ^ 32 := by
    intro t ht
    obtain ⟨hcount, hdata⟩ := hsmall t ht
    have hlength := length_trackPayload_le (regular_tracks .standard song t ht)
      fun e he => length_bytes_le (hdata e he)
    omega
  exact ⟨⟨by decide, by decide, hsize⟩,
    readFile_encode .standard song (by decide) (by decide) hsize⟩

end Partitura.Midi
