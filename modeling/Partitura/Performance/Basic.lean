import Partitura.Diagnostic
import Partitura.Music.Key
import Partitura.Music.Meter
import Partitura.Score.Basic

/-!
# Performances

A performance is a score in which every time is a number of seconds from the
start and every default has been filled in. It is the only form that is encoded.
A part is played once, or again after each period: without end, or until a span
of time is over. Passes of a finite loop are unrolled in order; a note that
starts after the period belongs to no pass, and none starts after the span.
-/

namespace Partitura

structure Change (α β : Type) where
  seconds : α
  value : β

structure Route where
  source : String
  target : String
deriving DecidableEq, Repr

structure PlacedDevice (α : Type) where
  node : Option String
  kind : DeviceKind
  options : Options α

inductive Repetition (α : Type) where
  | once
  | endless (period : α)
  | finite (span period : α)

structure PlayedModulation (α : Type) where
  kind : ModulationKind
  controller : Option Nat
  value : α
  time : α

structure PlayedNote (α : Type) where
  index : Nat
  pitches : List PitchValue
  start : α
  duration : α
  velocity : α
  articulation : Option String
  microtuning : Option α
  channel : Option Nat
  modulations : List (PlayedModulation α)

structure PlayedPart (α : Type) where
  label : String
  instrument : PlacedDevice α
  effects : List (PlacedDevice α)
  notes : List (PlayedNote α)
  repetition : Repetition α
  midiChannel : Option Nat

inductive Curve where
  | step | linear
deriving DecidableEq, Repr

structure PlayedAutomation (α : Type) where
  node : Option String
  parameter : String
  time : α
  value : α
  curve : Curve

inductive RemarkKind where
  | marker | lyric | cue | text
deriving DecidableEq, Repr

def RemarkKind.parse? (s : String) : Option RemarkKind :=
  let name := Text.lower (Text.trim s)
  if name ∈ ["marker", "section", "rehearsal"] then some marker
  else if name ∈ ["lyric", "lyrics"] then some lyric
  else if name = "cue" then some cue
  else if name ∈ ["text", "comment", "note"] then some text
  else none

def RemarkKind.name : RemarkKind → String
  | marker => "marker"
  | lyric => "lyric"
  | cue => "cue"
  | text => "text"

structure PlayedRemark (α : Type) where
  text : String
  time : α
  kind : RemarkKind

structure Performance (α : Type) where
  format : String
  version : String
  bpm : α
  meter : Meter
  key : Option Key
  tempo : TempoMap α
  meterChanges : List (Change α Meter)
  keyChanges : List (Change α Key)
  metadata : Metadata
  graph : List (GraphNode α)
  routes : List Route
  parts : List (PlayedPart α)
  automation : List (PlayedAutomation α)
  remarks : List (PlayedRemark α)
  diagnostics : List Diagnostic

variable {α : Type} [Scalar α]

/-- Places in quarter notes that are nearer to each other than this are one place. -/
def nearness : α := 1e-6

/-- A list in ascending order of a time, equal times in the order of the list. -/
def sortByTime {β : Type} (time : β → α) (items : List β) : List β :=
  items.mergeSort fun a b => Scalar.sortsBefore (time a) (time b)

def greatest (xs : List α) : α := xs.foldl Scalar.maxOf 0

def maxPasses : Nat := 4096

namespace Repetition

def count? : Repetition α → Option Nat
  | once => some 1
  | endless _ => none
  | finite span period =>
    some (Scalar.word (Scalar.clampTo 1 (Scalar.ofInt maxPasses) (Scalar.ceil (span / period))))

def period? : Repetition α → Option α
  | once => none
  | endless period => some period
  | finite _ period => some period

end Repetition

namespace PlayedNote

def stop (n : PlayedNote α) : α := n.start + n.duration

def isChord (n : PlayedNote α) : Bool := decide (1 < n.pitches.length)

def moved (n : PlayedNote α) (start offset : α) : PlayedNote α :=
  { n with
    start := start
    modulations := n.modulations.map fun m => { m with time := m.time + offset } }

end PlayedNote

namespace PlayedPart

def stop (p : PlayedPart α) : α := greatest (p.notes.map PlayedNote.stop)

def sortedNotes (p : PlayedPart α) : List (PlayedNote α) := sortByTime PlayedNote.start p.notes

def passNotes (notes : List (PlayedNote α)) (span period : α) (pass : Nat) :
    List (PlayedNote α) :=
  let offset := Scalar.ofInt pass * period
  notes.filterMap fun n =>
    let start := n.start + offset
    if span ≤ start ∨ period ≤ n.start then none else some (n.moved start offset)

/-- The notes with a finite loop unrolled; an endless one gives a single pass. -/
def expandedNotes (p : PlayedPart α) : List (PlayedNote α) :=
  match p.repetition with
  | .finite span period =>
    (List.range (p.repetition.count?.getD 1)).flatMap (passNotes p.notes span period)
  | _ => p.notes

end PlayedPart

namespace Performance

def node? (p : Performance α) (id : String) : Option (GraphNode α) :=
  p.graph.find? fun n => n.id == id

def quarterAt (p : Performance α) (seconds : α) : α := 60 / p.tempo.tempoAt seconds

/-- The end of the last note of all parts, loops being played once. -/
def duration (p : Performance α) : α := greatest (p.parts.map PlayedPart.stop)

end Performance

end Partitura
