import Mathlib.Tactic.IntervalCases
import Partitura.Proofs.Tune.Slots
import Partitura.Proofs.Tune.Stretches
import Partitura.Score.Build

/-!
# Reading a voice

A voice is read the way a score is read. The reader has the key in mind, and the marks of
the bar so far, each for its letter and its octave. A pitch is moved by its own mark, or
else by the mark in force for it, or else as the key has it. Every bar line takes the marks
away, and a field of a key changes the key.
-/

namespace Partitura

/-- What a reader has in mind: the key, and the offsets of the marks of the bar so far. -/
structure Reading where
  key : Key
  marks : Letter → Int → Option Int

namespace Reading

def fresh (k : Key) : Reading := ⟨k, fun _ _ => none⟩

def offset (r : Reading) (h : Head) : Int :=
  match h.accidental with
  | some mark => mark.offset
  | none => (r.marks h.letter h.octave).getD (r.key.offsetOf h.letter)

def number (r : Reading) (h : Head) : Int :=
  (h.octave + 1) * 12 + h.letter.semitone + r.offset h

def afterHead (r : Reading) (h : Head) : Reading :=
  match h.accidental with
  | some mark =>
    { r with
      marks := fun letter octave =>
        if letter = h.letter ∧ octave = h.octave then some mark.offset
        else r.marks letter octave }
  | none => r

def numbers (r : Reading) : List Head → List Int
  | [] => []
  | h :: rest => r.number h :: numbers (r.afterHead h) rest

def afterHeads (r : Reading) (heads : List Head) : Reading := heads.foldl afterHead r

def after (r : Reading) : Element → Reading
  | .note token => r.afterHeads token.heads
  | .field (.key k) => { r with key := k }
  | .barLine => fresh r.key
  | .finalBar => fresh r.key
  | _ => r

def notes (r : Reading) : List Element → List (Length × List Int)
  | [] => []
  | .note token :: rest =>
    (token.length, r.numbers token.heads) :: notes (r.after (.note token)) rest
  | e :: rest => notes (r.after e) rest

end Reading

/-- The notes of a voice under the key of its header. -/
def Voice.notes (key : Key) (v : Voice) : List (Length × List Int) :=
  (Reading.fresh key).notes v.elements

variable {α : Type} [Scalar α]

/-- The note that a stretch has to be read as, unless it is a rest. -/
def Stretch.note? (st : Stretch α) : Option (Length × List Int) :=
  st.slot?.map fun slot =>
    (Length.ofQuarters (st.stop - st.start), slot.pitches.map SlotPitch.number)

/-! ## Spelling -/

def Marks.inForce (marks : Marks) (letter : Letter) (octave : Int) : Option Int :=
  (marks.find? fun m => m.1 == (letter, octave)).map Prod.snd

def VoiceState.reading (s : VoiceState α) : Reading := ⟨s.key, s.marks.inForce⟩

def SlotPitch.inKey (k : Key) : SlotPitch → SpelledPitch
  | .spelled p => p
  | .midi n => spellInKey k n

theorem slots_layBar (bar : Bar α) (s : VoiceState α) :
    (layBar bar s).2.slots = (stretchesOf bar s.slots).2 := by
  rw [layBar_eq]
  rfl

def sharedBars (p : Performance α) : List (Bar α) :=
  barGrid p (greatest ((voiceSlots p).value.flatten.map Slot.stop))

/-- A name that is played as 8, and read as the name says. -/
theorem notes_tuneOf_far :
    let far : Note Rat := .sounding (.single (.name "C357913941")) (.seconds 0) (.seconds 1)
    let lead : Part Rat := (Part.labelled "lead" (some [far])).playing "lead"
    let song : Score Rat := { Score.empty with bpm := some 120, parts := some [lead] }
    (PitchValue.name "C357913941").midi? = some 8 ∧
      (tuneOf .standard (perform song)).diagnostics = [] ∧
      (tuneOf .standard (perform song)).value.voices.map
        (Voice.notes (tuneOf .standard (perform song)).value.header.key) =
          [[(Length.ofQuarters (2 : Rat), [4294967304])]] := by
  decide +kernel

end Partitura
