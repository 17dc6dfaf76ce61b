import Partitura.Proofs.Midi.Attribution
import Partitura.Proofs.Midi.Balance
import Partitura.Proofs.Performance.Reports

/-!
# Notes in tracks

Every pitch of every note is switched on once and off once in the track of its
part, loud enough to be heard. Wherever the track is left off, no more has been
switched off than on, since that is so note by note. A pitch that cannot be played
is replaced by another one and reported.
-/

namespace Partitura.Midi

variable {α : Type} [Scalar α]

def isOn (channel pitch : Nat) : Nat × Bytes → Bool
  | (_, [s, p, _]) => s == status 0x90 channel && p == sevenBits pitch
  | _ => false

def isOff (channel pitch : Nat) : Nat × Bytes → Bool
  | (_, [s, p, _]) => s == status 0x80 channel && p == sevenBits pitch
  | _ => false

/-- A track in which the notes of a part are heard. -/
structure Sounding (settings : Settings) (clock : Clock α) (channel : Nat)
    (notes : List (PlayedNote α)) (stream : List (Nat × Bytes)) : Prop where
  attributed : ∃ labelled, labelled.map Prod.snd = stream ∧
    Attributed settings clock channel notes labelled
  velocity : ∀ tick s p v, (tick, [s, p, v]) ∈ stream → s.toNat / 16 = 9 →
    1 ≤ v.toNat ∧ v.toNat ≤ 127
  balanced : ∀ channel pitch, Balanced (isOn channel pitch) (isOff channel pitch) stream

/-! ## What is heard -/

theorem isNote_of_isOn {channel pitch : Nat} {e : Nat × Bytes} (h : isOn channel pitch e = true) :
    isNote e.2 = true := by
  unfold isOn at h
  split at h
  · obtain ⟨hs, -⟩ := Bool.and_eq_true_iff.mp h
    rw [beq_iff_eq.mp hs]
    simp [isNote, status_div 9 (by decide)]
  · cases h

theorem isNote_of_isOff {channel pitch : Nat} {e : Nat × Bytes}
    (h : isOff channel pitch e = true) : isNote e.2 = true := by
  unfold isOff at h
  split at h
  · obtain ⟨hs, -⟩ := Bool.and_eq_true_iff.mp h
    rw [beq_iff_eq.mp hs]
    simp [isNote, status_div 8 (by decide)]
  · cases h

theorem beq_status {kind kind' : Nat} (h : kind ≤ 240) (h' : kind' ≤ 240) (a b : Nat) :
    (status kind a == status kind' b) = decide (kind + a % 16 = kind' + b % 16) := by
  rw [Bool.eq_iff_iff, beq_iff_eq, decide_eq_true_iff, ← UInt8.toNat_inj, toNat_status h,
    toNat_status h']

section Note

variable (settings : Settings) (clock : Clock α) (channel : Nat) (n : PlayedNote α) (c pitch : Nat)

theorem isOff_of_mem_noteOns :
    ∀ e ∈ noteOns settings clock channel n, isOff c pitch e = false := by
  intro e he
  obtain ⟨p, -, rfl⟩ := List.mem_map.mp he
  have hne : 144 + n.channel.getD channel % 16 ≠ 128 + c % 16 := by omega
  simp [isOff, beq_status, hne]

theorem isOn_of_mem_noteOffs :
    ∀ e ∈ noteOffs settings clock channel n, isOn c pitch e = false := by
  intro e he
  obtain ⟨p, -, rfl⟩ := List.mem_map.mp he
  have hne : 128 + n.channel.getD channel % 16 ≠ 144 + c % 16 := by omega
  simp [isOn, beq_status, hne]

theorem countP_noteOffs : (noteOffs settings clock channel n).countP (isOff c pitch) =
    (noteOns settings clock channel n).countP (isOn c pitch) := by
  rw [noteOffs, noteOns, List.countP_map, List.countP_map]
  refine List.countP_congr fun p _ => ?_
  simp [isOn, isOff, beq_status]

end Note

section Attributed

variable {settings : Settings} {clock : Clock α} {channel : Nat} {notes : List (PlayedNote α)}
  {labelled : List (Label × Nat × Bytes)} (h : Attributed settings clock channel notes labelled)

include h

theorem Attributed.cases {e : Label × Nat × Bytes} (he : e ∈ labelled) :
    isNote e.2.2 = false ∨ ∃ n ∈ notes,
      e.2 ∈ noteOns settings clock channel n ∨ e.2 ∈ noteOffs settings clock channel n := by
  cases hlabel : e.1.note? with
  | none =>
    refine .inl (h.others e he ?_)
    cases hl : e.1 <;> simp [hl, Label.note?] at hlabel ⊢
  | some k =>
    have hk := h.known e he k hlabel
    have hmem : e ∈ labelled.filter fun e => e.1.note? == some k :=
      List.mem_filter.mpr ⟨he, beq_iff_eq.mpr hlabel⟩
    rw [h.each k _ (List.getElem?_eq_getElem hk)] at hmem
    refine .inr ⟨notes[k], List.getElem_mem hk, ?_⟩
    rcases List.mem_append.mp hmem with hmem | hmem
    · obtain ⟨d, hd, rfl⟩ := List.mem_map.mp hmem
      exact .inl hd
    · obtain ⟨d, hd, rfl⟩ := List.mem_map.mp hmem
      exact .inr hd

theorem Attributed.velocity {label : Label} {tick : Nat} {s p v : UInt8}
    (he : (label, tick, [s, p, v]) ∈ labelled) (hs : s.toNat / 16 = 9) :
    1 ≤ v.toNat ∧ v.toNat ≤ 127 := by
  rcases h.cases he with hsilent | ⟨n, -, hon | hoff⟩
  · simp [isNote, hs] at hsilent
  · obtain ⟨q, -, hq⟩ := List.mem_map.mp hon
    simp only [Prod.mk.injEq, List.cons.injEq] at hq
    obtain ⟨-, -, -, rfl, -⟩ := hq
    have hmem := noteVelocity_mem n.velocity
    rw [UInt8.toNat_ofNat']
    omega
  · obtain ⟨q, -, hq⟩ := List.mem_map.mp hoff
    simp only [Prod.mk.injEq, List.cons.injEq] at hq
    obtain ⟨-, rfl, -⟩ := hq
    have hdiv : (status 0x80 (n.channel.getD channel)).toNat / 16 = 8 :=
      status_div 8 (by decide) _
    omega

/-- Note by note the messages are balanced, so they are in any order that keeps each note's. -/
theorem Attributed.balanced (c pitch : Nat) :
    Balanced (fun e : Label × Nat × Bytes => isOn c pitch e.2) (fun e => isOff c pitch e.2)
      labelled := by
  refine balanced_of_parts (fun e => e.1.note?) notes.length (fun k => ?_) ?_
    h.known
  · by_cases hk : k < notes.length
    · rw [h.each k _ (List.getElem?_eq_getElem hk)]
      refine balanced_append (fun x hx => ?_) (fun x hx => ?_) ?_
      · obtain ⟨e, he, rfl⟩ := List.mem_map.mp hx
        exact isOff_of_mem_noteOns settings clock channel _ c pitch e he
      · obtain ⟨e, he, rfl⟩ := List.mem_map.mp hx
        exact isOn_of_mem_noteOffs settings clock channel _ c pitch e he
      · have hcount := countP_noteOffs settings clock channel notes[k] c pitch
        simpa only [List.countP_map, Function.comp_def] using hcount
    · have hnil : (labelled.filter fun e => e.1.note? == some k) = [] :=
        List.filter_eq_nil_iff.mpr fun e he hlabel => hk (h.known e he k (beq_iff_eq.mp hlabel))
      rw [hnil]
      exact balanced_of_silent nofun
  · refine balanced_of_silent fun e he => ?_
    obtain ⟨he, hlabel⟩ := List.mem_filter.mp he
    have hother : e.1 = .other := by
      cases hl : e.1 <;> simp [hl, Label.note?] at hlabel ⊢
    have hsilent := h.others e he hother
    constructor
    · exact Bool.eq_false_iff.mpr fun hon => by simp [isNote_of_isOn hon] at hsilent
    · exact Bool.eq_false_iff.mpr fun hoff => by simp [isNote_of_isOff hoff] at hsilent

end Attributed

theorem sounding_partEvents (settings : Settings) (clock : Clock α) (perf : Performance α)
    (i : Nat) (part : PlayedPart α) (channel : Nat) :
    Sounding settings clock channel (orderedNotes part)
      (written (partEvents settings clock perf i part channel).value) := by
  have hstream := map_snd_labelledStream settings clock perf i part channel
  have hattributed := attributed_labelledStream settings clock perf i part channel
  refine ⟨⟨_, hstream, hattributed⟩, fun tick s p v he hs => ?_, fun c pitch => ?_⟩
  · rw [← hstream] at he
    obtain ⟨⟨label, e⟩, hmem, rfl⟩ := List.mem_map.mp he
    exact hattributed.velocity hmem hs
  · rw [← hstream]
    exact (hattributed.balanced c pitch).map

/-! ## What is reported -/

def reportsPitch (d : Diagnostic) : Bool := decide (Opens "unresolvable pitch '" d.message)

def unresolved (settings : Settings) (partPath : String) (n : PlayedNote α) : List Diagnostic :=
  (n.pitches.filter fun p => p.midi?.isNone).map fun p =>
    .warning (partPath ++ "." ++ entryPath "notes" n.index ++ ".note")
      ("unresolvable pitch '" ++ p.text ++ "', using " ++ toString settings.defaultPitch)

theorem reportsPitch_eq_false {d : Diagnostic} {a : String} (ha : Opens a d.message)
    (h : ¬ Opens a "unresolvable pitch '" ∧ ¬ Opens "unresolvable pitch '" a) :
    reportsPitch d = false := by
  refine decide_eq_false fun hopens => ?_
  exact ne_of_openings ha hopens h rfl

theorem filter_eq_nil_of_reports {β : Type} {o : Outcome β}
    (h : o.Reports fun d => reportsPitch d = false) : o.diagnostics.filter reportsPitch = [] :=
  List.filter_eq_nil_iff.mpr fun d hd => by simp [h d hd]

open Outcome

theorem reports_partProgram (path : String) (kind : DeviceKind) :
    (partProgram path kind).Reports fun d => reportsPitch d = false := by
  unfold partProgram
  split
  · exact reports_pure _
  · refine reports_note_bind ?_ fun _ => reports_pure _
    exact reportsPitch_eq_false (((opens_self "no General MIDI program for '").append _).append _)
      (by decide)

omit [Scalar α] in
theorem reports_singlePass (path : String) (p : PlayedPart α) :
    (singlePass path p).Reports fun d => reportsPitch d = false := by
  unfold singlePass
  split
  · refine reports_note ?_
    exact reportsPitch_eq_false (opens_self "infinite loop written as a single pass") (by decide)
  · exact reports_pure _

theorem reports_modulationEvents (clock : Clock α) (path : String) (channel : Nat)
    (m : PlayedModulation α) :
    (modulationEvents clock path channel m).Reports fun d => reportsPitch d = false := by
  unfold modulationEvents
  dsimp only
  split
  · exact reports_pure _
  · refine reports_note_bind ?_ fun _ => reports_pure _
    exact reportsPitch_eq_false (opens_self "cc modulation without controller skipped") (by decide)
  · exact reports_pure _
  · exact reports_pure _
  · exact reports_pure _

theorem reports_automationEvent (settings : Settings) (clock : Clock α) (kind : DeviceKind)
    (channel : Nat) (a : PlayedAutomation α) :
    (automationEvent settings clock kind channel a).Reports fun d => reportsPitch d = false := by
  unfold automationEvent
  split
  · exact reports_pure _
  · refine reports_note_bind ?_ fun _ => reports_pure _
    exact reportsPitch_eq_false (((((opens_self "no controller mapped for '").append _).append
      _).append _).append _) (by decide)

theorem filter_playedPitch (settings : Settings) (path : String) (p : PitchValue) :
    (playedPitch settings path p).diagnostics.filter reportsPitch =
      if p.midi?.isNone then [.warning path ("unresolvable pitch '" ++ p.text ++ "', using "
        ++ toString settings.defaultPitch)] else [] := by
  unfold playedPitch
  cases p.midi? with
  | some n => rfl
  | none =>
    refine List.filter_eq_self.mpr fun d hd => ?_
    rw [List.mem_singleton.mp hd]
    exact decide_eq_true (((opens_self "unresolvable pitch '").append _).append _ |>.append _)

theorem filter_noteEvents (settings : Settings) (clock : Clock α) (path : String) (channel : Nat)
    (n : PlayedNote α) :
    (noteEvents settings clock path channel n).diagnostics.filter reportsPitch =
      unresolved settings path n := by
  have hpitches (noted : String) (pitches : List PitchValue) :
      (pitches.flatMap fun p => (playedPitch settings noted p).diagnostics.filter reportsPitch) =
        (pitches.filter fun p => p.midi?.isNone).map fun p => .warning noted
          ("unresolvable pitch '" ++ p.text ++ "', using " ++ toString settings.defaultPitch) := by
    simp only [filter_playedPitch]
    induction pitches with
    | nil => rfl
    | cons p rest ih =>
      rw [List.flatMap_cons, ih, List.filter_cons]
      split <;> rfl
  have hchanges (noted : String) (c : Nat) :
      (n.modulations.flatMap fun m =>
        (modulationEvents clock noted c m).diagnostics.filter reportsPitch) = [] :=
    List.flatMap_eq_nil_iff.mpr fun m _ =>
      filter_eq_nil_of_reports (reports_modulationEvents clock noted c m)
  simp only [noteEvents, diagnostics_bind, diagnostics_collect, diagnostics_pure,
    List.filter_append, List.filter_flatMap, List.flatMap_map, hpitches, hchanges,
    List.append_nil]
  rfl

theorem filter_partEvents (settings : Settings) (clock : Clock α) (perf : Performance α) (i : Nat)
    (p : PlayedPart α) (channel : Nat) :
    (partEvents settings clock perf i p channel).diagnostics.filter reportsPitch =
      (orderedNotes p).flatMap (unresolved settings (entryPath "sequences" i)) := by
  have hautomation : ((perf.automation.filter (concerns p.instrument)).flatMap fun a =>
      (automationEvent settings clock p.instrument.kind channel a).diagnostics.filter
        reportsPitch) = [] :=
    List.flatMap_eq_nil_iff.mpr fun a _ =>
      filter_eq_nil_of_reports (reports_automationEvent settings clock _ channel a)
  simp only [partEvents, diagnostics_bind, diagnostics_collect, diagnostics_pure,
    List.filter_append, List.filter_flatMap, List.flatMap_map, filter_noteEvents, hautomation,
    filter_eq_nil_of_reports (reports_partProgram _ _),
    filter_eq_nil_of_reports (reports_singlePass _ _), List.append_nil, List.nil_append]
  rfl

/-! ## The tracks of a performance -/

omit [Scalar α] in
theorem getElem?_assignChannels {parts : List (PlayedPart α)} {i : Nat} {part : PlayedPart α}
    (h : parts[i]? = some part) (next : Nat) :
    ∃ channel, (assignChannels next parts)[i]? = some channel ∧
      ∀ c, part.midiChannel = some c → channel = c := by
  induction parts generalizing i next with
  | nil => cases h
  | cons p rest ih =>
    cases i with
    | zero =>
      obtain rfl : p = part := by simpa using h
      rw [assignChannels]
      split
      · rename_i channel hp
        refine ⟨channel, rfl, fun c hc => ?_⟩
        rw [hp] at hc
        exact Option.some.inj hc
      · rename_i hp
        exact ⟨_, rfl, fun c hc => by simp [hp] at hc⟩
    | succ i =>
      rw [assignChannels]
      split <;> exact ih (by simpa using h) _

theorem getElem?_tracks (settings : Settings) (perf : Performance α) {i : Nat}
    {part : PlayedPart α} {channel : Nat} (h : perf.parts[i]? = some part)
    (hchannel : (assignChannels 0 perf.parts)[i]? = some channel) :
    (tracks settings perf).value[i + 1]? = some
      (partEvents settings ⟨perf.tempo, settings.ticksPerBeat⟩ perf i part channel).value := by
  have hzip : (perf.parts.zip (assignChannels 0 perf.parts))[i]? = some (part, channel) :=
    List.getElem?_zip_eq_some.mpr ⟨h, hchannel⟩
  simp [tracks, List.getElem?_map, List.getElem?_zipIdx, hzip]

theorem filter_encode (settings : Settings) (perf : Performance α) :
    (encode settings perf).diagnostics.filter reportsPitch = perf.parts.zipIdx.flatMap fun x =>
      (orderedNotes x.1).flatMap (unresolved settings (entryPath "sequences" x.2)) := by
  rw [zipIdx_eq_map_zip (length_assignChannels 0 perf.parts).symm]
  simp [encode, tracks, List.filter_flatMap, List.flatMap_map, filter_partEvents]

/-- In the track of a part each pitch of each of its notes is switched on and off once, on the
channel of the note or else of the part. The messages are balanced wherever the track is left
off, and what cannot be played is reported pitch by pitch. -/
theorem sounding_tracks (settings : Settings) (perf : Performance α) {i : Nat}
    {part : PlayedPart α} (h : perf.parts[i]? = some part) :
    ∃ channel events, (assignChannels 0 perf.parts)[i]? = some channel ∧
      (∀ c, part.midiChannel = some c → channel = c) ∧
      (tracks settings perf).value[i + 1]? = some events ∧
      (orderedNotes part).Perm part.expandedNotes ∧
      Sounding settings ⟨perf.tempo, settings.ticksPerBeat⟩ channel (orderedNotes part)
        (written events) ∧
      (encode settings perf).diagnostics.filter reportsPitch = perf.parts.zipIdx.flatMap fun x =>
        (orderedNotes x.1).flatMap (unresolved settings (entryPath "sequences" x.2)) := by
  obtain ⟨channel, hchannel, hown⟩ := getElem?_assignChannels h 0
  exact ⟨channel, _, hchannel, hown, getElem?_tracks settings perf h hchannel,
    List.mergeSort_perm _ _, sounding_partEvents settings _ perf i part channel,
    filter_encode settings perf⟩

/-- A chord with a name that is no pitch, a detuned note on a channel of its own within it, and a
note that starts where the chord stops. -/
theorem sounding_tracks_song :
    let settings : Settings := { Settings.standard with defaultPitch := 61 }
    let long : PlayedNote Rat := ⟨0, [.midi 60, .name "H4"], 0, 2, 0.8, none, none, none, []⟩
    let short : PlayedNote Rat := ⟨1, [.name "C4"], 1, 0, 0, none, some 30, some 3, []⟩
    let again : PlayedNote Rat := ⟨2, [.midi 60], 2, 1, 1, none, none, none, []⟩
    let lead : PlayedPart Rat :=
      ⟨"lead", ⟨none, .synth, []⟩, [], [again, long, short], .once, some 5⟩
    let song : Performance Rat := ⟨formatName, formatVersion, 120, .common, none, .constant 120,
      [], [], ⟨none, none, none⟩, [], [], [lead], [], [], []⟩
    song.parts[0]? = some lead ∧ orderedNotes lead = [long, short, again] ∧
    ∃ channel events, (assignChannels 0 song.parts)[0]? = some channel ∧ channel = 5 ∧
      (tracks settings song).value[0 + 1]? = some events ∧
      events = [.text 0 .trackName "lead", .send 0 5 (.program 80),
        .send 0 5 (.noteOn 60 102), .send 0 5 (.noteOn 61 102),
        .send 1920 5 (.noteOff 60), .send 1920 5 (.noteOff 61),
        .send 960 3 (.bend 9421), .send 960 3 (.noteOn 60 1), .send 960 3 (.noteOff 60),
        .send 960 3 (.bend 8192),
        .send 1920 5 (.noteOn 60 127), .send 2880 5 (.noteOff 60)] ∧
      Sounding settings ⟨song.tempo, settings.ticksPerBeat⟩ channel (orderedNotes lead)
        (written events) ∧
      (encode settings song).diagnostics.filter reportsPitch =
        [.warning "sequences[0].notes[0].note" "unresolvable pitch 'H4', using 61"] := by
  intro settings long short again lead song
  have hpart : song.parts[0]? = some lead := rfl
  have hordered : orderedNotes lead = [long, short, again] := by
    have hturned : List.Perm ([again] ++ [long, short]) ([long, short] ++ [again]) :=
      List.perm_append_comm
    have hperm : (orderedNotes lead).Perm [long, short, again] :=
      (List.mergeSort_perm _ _).trans hturned
    have hsorted : (orderedNotes lead).Pairwise fun a b => a.start ≤ b.start :=
      pairwise_mergeSort_le PlayedNote.start _
    refine hperm.eq_of_pairwise ?_ hsorted (by decide +kernel)
    intro a b ha hb hab hba
    have ha : a = long ∨ a = short ∨ a = again := by simpa using hperm.subset ha
    have hb : b = long ∨ b = short ∨ b = again := by simpa using hb
    -- no two of the notes start together
    rcases ha with rfl | rfl | rfl <;> rcases hb with rfl | rfl | rfl <;>
      first
      | rfl
      | exact absurd hab (by decide +kernel)
      | exact absurd hba (by decide +kernel)
  obtain ⟨channel, events, hchannel, hown, hevents, -, hsounding, hreports⟩ :=
    sounding_tracks settings song hpart
  obtain rfl : channel = 5 := hown 5 rfl
  refine ⟨rfl, hordered, 5, events, hchannel, rfl, hevents, ?_, hsounding, ?_⟩
  · have htrack := getElem?_tracks settings song hpart hchannel
    rw [hevents] at htrack
    rw [Option.some.inj htrack, value_partEvents, recentred, hordered]
    decide +kernel
  · rw [hreports]
    show List.flatMap _ [(lead, 0)] = _
    rw [List.flatMap_singleton, hordered]
    decide +kernel

/-- A byte has no room for a channel above 15 or a pitch above 127: no note-on of this part is
on the channel that its note names, and none has the pitch that takes the place of the note's. -/
theorem no_noteOn_as_asked :
    let settings : Settings := { Settings.standard with defaultPitch := 200 }
    let note : PlayedNote Rat := ⟨0, [.name "H4"], 0, 1, 0.8, none, none, some 20, []⟩
    let lead : PlayedPart Rat := ⟨"lead", ⟨none, .synth, []⟩, [], [note], .once, none⟩
    let song : Performance Rat := ⟨formatName, formatVersion, 120, .common, none, .constant 120,
      [], [], ⟨none, none, none⟩, [], [], [lead], [], [], []⟩
    (PitchValue.name "H4").midi? = none ∧
    ∃ events, (tracks settings song).value[1]? = some events ∧
      ∀ tick s p v, (tick, [s, p, v]) ∈ written events → s.toNat / 16 = 9 →
        s.toNat % 16 ≠ 20 ∧ p.toNat ≠ 200 := by
  intro settings note lead song
  have hpitch : (PitchValue.name "H4").midi? = none := by decide +kernel
  have hpart : song.parts[0]? = some lead := rfl
  have hchannel : (assignChannels 0 song.parts)[0]? = some 0 := rfl
  have hnotes : orderedNotes lead = [note] := by
    simp [orderedNotes, sortByTime, PlayedPart.expandedNotes, lead]
  refine ⟨hpitch, _, getElem?_tracks settings song hpart hchannel, ?_⟩
  intro tick s p v he hs
  refine ⟨by omega, ?_⟩
  obtain ⟨labelled, hstream, hattributed⟩ :=
    (sounding_partEvents settings ⟨song.tempo, settings.ticksPerBeat⟩ song 0 lead 0).attributed
  rw [← hstream] at he
  obtain ⟨e, hmem, he⟩ := List.mem_map.mp he
  rcases hattributed.cases hmem with hsilent | ⟨n, hn, hnote⟩
  · rw [he] at hsilent
    simp [isNote, hs] at hsilent
  · rw [hnotes] at hn
    rw [List.mem_singleton.mp hn, he] at hnote
    have hp : p = UInt8.ofNat (200 % 128) := by
      rcases hnote with hnote | hnote
      · simp [noteOns, note, writtenPitch, hpitch] at hnote
        exact hnote.2.2.1
      · simp [noteOffs, note, writtenPitch, hpitch] at hnote
        exact hnote.2.2.1
    rw [hp]
    decide

end Partitura.Midi
