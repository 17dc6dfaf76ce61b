import Partitura.Midi.File
import Partitura.Proofs.Outcome

/-!
# The tracks of parts

What a part puts into its track, note after note: the events of the note, and the
bend that goes back to the centre where it ends. Each part has a track, after that
of the conductor, and a channel. What an event can be is said once here for each
function that makes events.
-/

namespace Partitura.Midi

variable {α : Type} [Scalar α]

/-! ## Notes -/

def Message.isNote : Message → Bool
  | .noteOn _ _ => true
  | .noteOff _ => true
  | _ => false

def sentPitch (settings : Settings) (p : PitchValue) : Nat := p.midi?.getD settings.defaultPitch

def bendEvents (clock : Clock α) (channel : Nat) (n : PlayedNote α) : List TimedEvent :=
  ((detuning? n).map fun cents => TimedEvent.send (noteTicks clock n).1 (n.channel.getD channel)
    (.bend (bendValue (cents / bendRange)))).toList

def onEvents (settings : Settings) (clock : Clock α) (channel : Nat) (n : PlayedNote α) :
    List TimedEvent :=
  n.pitches.map fun p => .send (noteTicks clock n).1 (n.channel.getD channel)
    (.noteOn (sentPitch settings p) (noteVelocity n.velocity))

def changeEvents (clock : Clock α) (path : String) (channel : Nat) (n : PlayedNote α) :
    List TimedEvent :=
  n.modulations.flatMap fun m => (modulationEvents clock path (n.channel.getD channel) m).value

def offEvents (settings : Settings) (clock : Clock α) (channel : Nat) (n : PlayedNote α) :
    List TimedEvent :=
  n.pitches.map fun p => .send (noteTicks clock n).2 (n.channel.getD channel)
    (.noteOff (sentPitch settings p))

theorem value_playedPitch (settings : Settings) (path : String) (p : PitchValue) :
    (playedPitch settings path p).value = sentPitch settings p := by
  unfold playedPitch sentPitch
  cases p.midi? <;> rfl

theorem value_noteEvents (settings : Settings) (clock : Clock α) (path : String) (channel : Nat)
    (n : PlayedNote α) : (noteEvents settings clock path channel n).value =
      bendEvents clock channel n ++ onEvents settings clock channel n
        ++ changeEvents clock (path ++ "." ++ entryPath "notes" n.index ++ ".modulations") channel n
        ++ offEvents settings clock channel n := by
  have hpitches (noted : String) : (n.pitches.map (playedPitch settings noted)).map Outcome.value =
      n.pitches.map (sentPitch settings) := by
    rw [List.map_map]
    exact List.map_congr_left fun p _ => value_playedPitch settings noted p
  simp only [noteEvents, Outcome.value_bind, Outcome.value_collect, Outcome.value_pure, hpitches,
    List.map_map]
  rfl

theorem mem_modulationEvents {clock : Clock α} {path : String} {channel : Nat}
    {m : PlayedModulation α} {e : TimedEvent}
    (h : e ∈ (modulationEvents clock path channel m).value) :
    ∃ message, message.isNote = false ∧ e = .send (clock.tick m.time) channel message := by
  unfold modulationEvents at h
  dsimp only at h
  split at h
  · exact ⟨_, rfl, List.mem_singleton.mp h⟩
  · cases h
  · exact ⟨_, rfl, List.mem_singleton.mp h⟩
  · exact ⟨_, rfl, List.mem_singleton.mp h⟩
  · cases h

theorem mem_recentreEvent {s : BendSpan} {centred : Bool} {e : TimedEvent}
    (h : e ∈ recentreEvent s centred) : e = .send s.stop s.channel (.bend bendCentre) := by
  cases centred with
  | false => cases h
  | true => exact List.mem_singleton.mp h

theorem mem_automationEvent {settings : Settings} {clock : Clock α} {kind : DeviceKind}
    {channel : Nat} {a : PlayedAutomation α} {e : TimedEvent}
    (h : e ∈ (automationEvent settings clock kind channel a).value) :
    ∃ message, message.isNote = false ∧ e = .send (clock.tick a.time) channel message := by
  unfold automationEvent at h
  split at h
  · exact ⟨_, rfl, List.mem_singleton.mp h⟩
  · cases h

theorem start_le_stop (clock : Clock α) (n : PlayedNote α) :
    (noteTicks clock n).1 ≤ (noteTicks clock n).2 := Nat.le_max_right _ _

/-! ## Parts -/

def orderedNotes (p : PlayedPart α) : List (PlayedNote α) :=
  sortByTime PlayedNote.start p.expandedNotes

def recentred (clock : Clock α) (channel : Nat) (p : PlayedPart α) : List Bool :=
  recentres (List.replicate 16 0) ((orderedNotes p).map (bendSpan clock channel))

def noteGroup (settings : Settings) (clock : Clock α) (path : String) (channel : Nat)
    (n : PlayedNote α) (centred : Bool) : List TimedEvent :=
  (noteEvents settings clock path channel n).value
    ++ recentreEvent (bendSpan clock channel n) centred

def openingEvents (i : Nat) (p : PlayedPart α) (channel : Nat) : List TimedEvent :=
  [.text 0 .trackName p.label,
    .send 0 channel (.program (partProgram (entryPath "sequences" i) p.instrument.kind).value)]

def automationEvents (settings : Settings) (clock : Clock α) (perf : Performance α)
    (p : PlayedPart α) (channel : Nat) : List TimedEvent :=
  (perf.automation.filter (concerns p.instrument)).flatMap fun a =>
    (automationEvent settings clock p.instrument.kind channel a).value

theorem length_recentres (held : List Nat) (spans : List BendSpan) :
    (recentres held spans).length = spans.length := by
  induction spans generalizing held with
  | nil => rfl
  | cons s later ih => simp [recentres, ih]

@[simp] theorem length_recentred (clock : Clock α) (channel : Nat) (p : PlayedPart α) :
    (recentred clock channel p).length = (orderedNotes p).length := by
  rw [recentred, length_recentres, List.length_map]

theorem zipWith_append_zipWith {β γ δ : Type} (f : β → List δ) (g : β → γ)
    (r : γ → Bool → List δ) (items : List β) (flags : List Bool) :
    List.zipWith (· ++ ·) (items.map f) (List.zipWith r (items.map g) flags) =
      (items.zip flags).map fun x => f x.1 ++ r (g x.1) x.2 := by
  induction items generalizing flags with
  | nil => rfl
  | cons x rest ih =>
    cases flags with
    | nil => rfl
    | cons c flags => simp [ih]

theorem value_partEvents (settings : Settings) (clock : Clock α) (perf : Performance α) (i : Nat)
    (p : PlayedPart α) (channel : Nat) :
    (partEvents settings clock perf i p channel).value = openingEvents i p channel
      ++ ((orderedNotes p).zip (recentred clock channel p)).flatMap
        (fun x => noteGroup settings clock (entryPath "sequences" i) channel x.1 x.2)
      ++ automationEvents settings clock perf p channel := by
  simp only [partEvents, Outcome.value_bind, Outcome.value_collect, Outcome.value_pure,
    List.map_map, Function.comp_def, zipWith_append_zipWith, List.flatMap_def]
  rfl

/-! ## Tracks -/

omit [Scalar α] in
@[simp] theorem length_assignChannels (next : Nat) (parts : List (PlayedPart α)) :
    (assignChannels next parts).length = parts.length := by
  induction parts generalizing next with
  | nil => rfl
  | cons p rest ih =>
    rw [assignChannels]
    split <;> simp [ih]

theorem length_tracks (settings : Settings) (p : Performance α) :
    (tracks settings p).value.length = p.parts.length + 1 := by
  simp [tracks]

end Partitura.Midi
