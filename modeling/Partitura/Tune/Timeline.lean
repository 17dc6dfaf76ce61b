import Partitura.Performance.OfScore
import Partitura.Tune.Basic
import Partitura.Tune.Grid

/-!
# One note after the other

A voice sounds one note or chord at a time. The notes of a part are taken in the
order of their starts, in quarter notes. Those that start together become one
chord, and a note that still sounds when the next one starts is cut there. Notes
without pitches or without length are left out.
-/

namespace Partitura

/-- A pitch to be written: with its own spelling, or spelled as the key has it. -/
inductive SlotPitch where
  | spelled (p : SpelledPitch)
  | midi (n : Nat)
deriving DecidableEq, Repr

structure Slot (α : Type) where
  start : α
  stop : α
  pitches : List SlotPitch
  velocity : α
  ornaments : List Ornament

variable {α : Type} [Scalar α]

/-- A pitch as it will be written; one that cannot be played is replaced and reported. -/
def slotPitch (path : String) (p : PitchValue) : Outcome SlotPitch :=
  match p.midi? with
  | none => do
    Outcome.note (.warning path ("unresolvable pitch '" ++ p.text ++ "', using "
      ++ toString defaultPitch))
    pure (.midi defaultPitch)
  | some n =>
    match p.spell? with
    | some q => pure (if p.isNamed then .spelled q else .midi n)
    | none => pure (.midi n)

def modulationOrnament (m : PlayedModulation α) : Option Ornament :=
  match m.kind with
  | .pitchBend => some .slide
  | .control => if m.controller = some 1 then some .trill else none
  | .aftertouch => some .emphasis
  | .unknown _ => none

def addNew {β : Type} [DecidableEq β] (items : List β) (item : β) : List β :=
  if item ∈ items then items else items ++ [item]

/-- The marks of a note: its articulation, then one for each kind of modulation. -/
def noteOrnaments (n : PlayedNote α) : List Ornament :=
  (n.modulations.filterMap modulationOrnament).foldl addNew
    (n.articulation.bind Ornament.ofArticulation?).toList

/-- The slot of a note alone, unless it has no pitches or no length. -/
def noteSlot (tempo : TempoMap α) (partPath : String) (n : PlayedNote α) :
    Outcome (Option (Slot α)) :=
  let start := tempo.beatAtSeconds n.start
  let stop := tempo.beatAtSeconds n.stop
  if stop - start < nearness ∨ n.pitches.isEmpty then pure none
  else do
    let path := partPath ++ "." ++ entryPath "notes" n.index ++ ".note"
    let pitches ← Outcome.collect (n.pitches.map (slotPitch path))
    pure (some ⟨start, stop, pitches, n.velocity, noteOrnaments n⟩)

/-- Adds a slot to slots of which the last one comes first. -/
def addSlot (slots : List (Slot α)) (next : Slot α) : List (Slot α) :=
  match slots with
  | [] => [next]
  | last :: earlier =>
    if Scalar.magnitude (next.start - last.start) < nearness then
      { last with
        pitches := next.pitches.foldl addNew last.pitches
        stop := Scalar.maxOf last.stop next.stop } :: earlier
    else if next.start < last.stop - nearness then
      next :: { last with stop := next.start } :: earlier
    else next :: last :: earlier

def slots (tempo : TempoMap α) (partPath : String) (p : PlayedPart α) :
    Outcome (List (Slot α)) := do
  let notes := sortByTime PlayedNote.start p.expandedNotes
  let single ← Outcome.collectSome (notes.map (noteSlot tempo partPath))
  pure (single.foldl addSlot []).reverse

end Partitura
