import Partitura.Proofs.Music.Pitch
import Partitura.Proofs.Outcome
import Partitura.Tune.OfPerformance

/-!
# The pitches of slots

The slots of a part are made of its notes that have pitches and a length, in the order of
their starts. A slot gathers the notes that start together, and there are as many slots as
such groups: its pitches are those of the first note, and then those of each other note
that it has not got yet. The pitch written for one that cannot be played is middle C, and a
name is written as it stands: it has the number that is played for it unless that one was
counted past 32 bits.
-/

namespace Partitura

/-- The number of a pitch, whichever way it is to be spelled and however far out it is. -/
def SlotPitch.number : SlotPitch → Int
  | .spelled p => p.semitones
  | .midi n => n

def writtenPitch (v : PitchValue) : SlotPitch := (slotPitch "" v).value

theorem value_slotPitch (path : String) (v : PitchValue) :
    (slotPitch path v).value = writtenPitch v := by
  unfold writtenPitch slotPitch
  cases v.midi? with
  | none => rfl
  | some n => cases v.spell? <;> rfl

variable {α : Type} [Scalar α]

def isHeard (tempo : TempoMap α) (n : PlayedNote α) : Bool :=
  !decide (tempo.beatAtSeconds n.stop - tempo.beatAtSeconds n.start < nearness)
    && !n.pitches.isEmpty

def heardNotes (tempo : TempoMap α) (p : PlayedPart α) : List (PlayedNote α) :=
  (sortByTime PlayedNote.start p.expandedNotes).filter (isHeard tempo)

def writtenPitches (n : PlayedNote α) : List SlotPitch := n.pitches.map writtenPitch

def slotAlone (tempo : TempoMap α) (n : PlayedNote α) : Slot α :=
  ⟨tempo.beatAtSeconds n.start, tempo.beatAtSeconds n.stop, writtenPitches n, n.velocity,
    noteOrnaments n⟩

theorem value_noteSlot (tempo : TempoMap α) (path : String) (n : PlayedNote α) :
    (noteSlot tempo path n).value =
      if isHeard tempo n then some (slotAlone tempo n) else none := by
  have hpitches (noted : String) :
      (n.pitches.map (slotPitch noted)).map Outcome.value = writtenPitches n := by
    rw [List.map_map]
    exact List.map_congr_left fun v _ => value_slotPitch noted v
  unfold noteSlot
  dsimp only
  split
  · next hsilent =>
    have hheard : isHeard tempo n = false := by
      rcases hsilent with hshort | hempty
      · simp [isHeard, hshort]
      · simp [isHeard, hempty]
    rw [hheard]
    rfl
  · next hsounds =>
    have hheard : isHeard tempo n = true := by
      obtain ⟨hlong, hpitched⟩ := not_or.mp hsounds
      simp [isHeard, hlong, hpitched]
    rw [hheard]
    simp only [Outcome.value_bind, Outcome.value_collect, Outcome.value_pure, hpitches]
    rfl

theorem value_slots (tempo : TempoMap α) (path : String) (p : PlayedPart α) :
    (slots tempo path p).value =
      (((heardNotes tempo p).map (slotAlone tempo)).foldl addSlot []).reverse := by
  have hsingle : (sortByTime PlayedNote.start p.expandedNotes).filterMap
      (fun n => (noteSlot tempo path n).value) = (heardNotes tempo p).map (slotAlone tempo) := by
    simp only [value_noteSlot, heardNotes]
    generalize sortByTime PlayedNote.start p.expandedNotes = notes
    induction notes with
    | nil => rfl
    | cons n rest ih => cases hheard : isHeard tempo n <;> simp [hheard, ih]
  simp only [slots, Outcome.value_bind, Outcome.value_collectSome, Outcome.value_pure,
    List.filterMap_map]
  exact congrArg (fun single => (single.foldl addSlot []).reverse) hsingle

/-! ## Gathering -/

theorem value_partSlots (p : Performance α) (i : Nat) (part : PlayedPart α) :
    (partSlots p i part).value = (slots p.tempo (entryPath "sequences" i) part).value := by
  unfold partSlots
  cases part.repetition <;> rfl

end Partitura
