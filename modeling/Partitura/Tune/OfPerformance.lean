import Partitura.Tune.Layout

/-!
# Tunes of performances

Every part becomes a voice, and all voices share their bars. A performance
without parts gives one voice of rests. Remarks after the last note of the first
voice are dropped and reported.
-/

namespace Partitura

structure TuneSettings where
  reference : Nat
  /-- Bars in a line; with zero, a voice is one line. -/
  barsPerLine : Nat
  source : Option String
deriving DecidableEq, Repr

def TuneSettings.standard : TuneSettings := ⟨1, 4, some "tessitura"⟩

variable {α : Type} [Scalar α]

def partSlots (p : Performance α) (i : Nat) (part : PlayedPart α) : Outcome (List (Slot α)) := do
  let path := entryPath "sequences" i
  match part.repetition with
  | .endless _ =>
    Outcome.note (.info (path ++ ".loop") "infinite loop written as a single pass")
  | _ => pure ()
  slots p.tempo path part

/-- The slots of all voices; there is always one. -/
def voiceSlots (p : Performance α) : Outcome (List (List (Slot α))) := do
  let timelines ← Outcome.collect (p.parts.zipIdx.map fun (part, i) => partSlots p i part)
  pure (if timelines.isEmpty then [[]] else timelines)

def layVoices (p : Performance α) (barsPerLine : Nat) (timelines : List (List (Slot α))) :
    List Voice × Cues α :=
  let stop := greatest (timelines.flatten.map Slot.stop)
  let bars := barGrid p stop
  let key := p.key.getD .cMajor
  match timelines with
  | [] => ([], Cues.ofPerformance p)
  | first :: others =>
    let (voice, cues) := layVoice 1 first bars key barsPerLine (Cues.ofPerformance p)
    (voice :: others.zipIdx.map fun (slots, i) =>
      (layVoice (i + 2) slots bars key barsPerLine Cues.none).1, cues)

def tuneHeader (settings : TuneSettings) (p : Performance α) : Header where
  reference := settings.reference
  title := (p.metadata.name.map Text.oneLine).getD "Untitled"
  composer := p.metadata.author.map Text.oneLine
  notes := p.metadata.description.map Text.oneLine
  source := settings.source
  meter := p.meter
  tempo := Scalar.word (Scalar.round p.tempo.initialTempo)
  key := p.key.getD .cMajor
  voiceNames :=
    if 1 < p.parts.length then p.parts.zipIdx.map fun (part, i) => ⟨i + 1, part.label⟩ else []

def droppedRemark (text : String) : Diagnostic :=
  .info "annotations" ("annotation '" ++ text ++ "' falls after the last note, dropped")

def tuneOf (settings : TuneSettings) (p : Performance α) : Outcome Tune := do
  let timelines ← voiceSlots p
  let (voices, cues) := layVoices p settings.barsPerLine timelines
  let _ ← Outcome.collect (cues.remarks.map fun r => Outcome.note (droppedRemark r.2))
  pure ⟨tuneHeader settings p, voices⟩

def tuneText (settings : TuneSettings) (p : Performance α) : Outcome String := do
  pure (← tuneOf settings p).text

end Partitura
