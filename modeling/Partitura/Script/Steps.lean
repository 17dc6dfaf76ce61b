import Partitura.Performance.OfScore
import Partitura.Script.Basic

/-!
# The rows of a pattern

A pattern plays one step after the other, in beats. The notes of the first pass
of a part are taken in the order of their starts; those that start together
become one step, and a step that still sounds when the next one starts is cut
there. A loop plays no note that starts at or after its period, and cuts what
sounds beyond it. Silence between steps, and up to the period, is a row too.
-/

namespace Partitura.Script

structure Step (α : Type) where
  start : α
  stop : α
  numbers : List String
  level : α

variable {α : Type} [Scalar α]

/-- The number of a pitch; one that cannot be played is replaced and reported. -/
def pitchNumber (path : String) (cents : α) (p : PitchValue) : Outcome String :=
  match p.midi? with
  | some n => pure (numberText (Scalar.ofInt n + cents))
  | none => do
    Outcome.note (.warning path ("unresolvable pitch '" ++ p.text ++ "', using "
      ++ toString defaultPitch))
    pure (numberText (Scalar.ofInt defaultPitch + cents))

def noteStep (tempo : TempoMap α) (period : Option α) (partPath : String) (n : PlayedNote α) :
    Outcome (Option (Step α)) :=
  let start := tempo.beatAtSeconds n.start
  let stop := tempo.beatAtSeconds n.stop
  let late : Bool := match period with
    | some period => decide (period - nearness ≤ start)
    | none => false
  let stop := match period with
    | some period => Scalar.minOf stop period
    | none => stop
  if late ∨ stop - start < nearness ∨ n.pitches.isEmpty then pure none
  else do
    let path := partPath ++ "." ++ entryPath "notes" n.index ++ ".note"
    let cents := n.microtuning.getD 0 / 100
    let numbers ← Outcome.collect (n.pitches.map (pitchNumber path cents))
    pure (some ⟨start, stop, numbers, n.velocity⟩)

def joinNumbers (numbers more : List String) : List String :=
  more.foldl (fun all n => if n ∈ all then all else all ++ [n]) numbers

/-- Adds a step to steps of which the last one comes first. -/
def addStep (steps : List (Step α)) (next : Step α) : List (Step α) :=
  match steps with
  | [] => [next]
  | last :: earlier =>
    if Scalar.magnitude (next.start - last.start) < nearness then
      { last with
        numbers := joinNumbers last.numbers next.numbers
        stop := Scalar.maxOf last.stop next.stop } :: earlier
    else if next.start < last.stop - nearness then
      next :: { last with stop := next.start } :: earlier
    else next :: last :: earlier

def periodBeats (tempo : TempoMap α) (p : PlayedPart α) : Option α :=
  p.repetition.period?.map tempo.beatAtSeconds

def steps (tempo : TempoMap α) (partPath : String) (p : PlayedPart α) :
    Outcome (List (Step α)) := do
  let period := periodBeats tempo p
  let single ← Outcome.collectSome (p.sortedNotes.map (noteStep tempo period partPath))
  pure (single.foldl addStep []).reverse

def silence (place stop : α) : List (Row α) :=
  if place + nearness < stop then [.rest (stop - place)] else []

/-- The rows of steps from a place on, and silence up to the period. -/
def rowsFrom (period : Option α) : α → List (Step α) → List (Row α)
  | place, [] =>
    match period with
    | some period => silence place period
    | none => []
  | place, s :: rest =>
    silence place s.start ++ .notes s.numbers (s.stop - s.start) s.level
      :: rowsFrom period s.stop rest

end Partitura.Script
