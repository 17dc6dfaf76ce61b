import Partitura.Time.Amount

/-!
# Tempo maps

A tempo map is a list of stretches of constant tempo, each with the beat and the
second it starts at; the first starts at zero. It turns beats into seconds and
back. Breakpoints are laid down in the order of their place at the base tempo.
One that falls before the last stretch moves up to its start, and one that falls
on that start replaces its tempo.
-/

namespace Partitura

structure TempoSegment (α : Type) where
  beat : α
  seconds : α
  bpm : α
deriving DecidableEq, Repr, BEq

structure TempoMap (α : Type) where
  first : TempoSegment α
  later : List (TempoSegment α)
deriving DecidableEq, Repr, BEq

structure TempoPoint (α : Type) where
  time : WrittenTime α
  bpm : α
deriving DecidableEq, Repr, BEq

namespace TempoMap

variable {α : Type} [Scalar α]

def constant (bpm : α) : TempoMap α := ⟨⟨0, 0, bpm⟩, []⟩

def segments (m : TempoMap α) : List (TempoSegment α) := m.first :: m.later

def last (m : TempoMap α) : TempoSegment α := m.later.getLastD m.first

/-- The last stretch with a property, or the first stretch of all. -/
def lastWhere (m : TempoMap α) (p : TempoSegment α → Bool) : TempoSegment α :=
  (m.segments.reverse.find? p).getD m.first

def segmentAtSeconds (m : TempoMap α) (s : α) : TempoSegment α :=
  m.lastWhere fun seg => decide (seg.seconds ≤ s)

def segmentAtBeat (m : TempoMap α) (b : α) : TempoSegment α :=
  m.lastWhere fun seg => decide (seg.beat ≤ b)

def tempoAt (m : TempoMap α) (s : α) : α := (m.segmentAtSeconds s).bpm

def secondsAtBeat (m : TempoMap α) (b : α) : α :=
  let seg := m.segmentAtBeat b
  seg.seconds + (b - seg.beat) * 60 / seg.bpm

def beatAtSeconds (m : TempoMap α) (s : α) : α :=
  let seg := m.segmentAtSeconds s
  seg.beat + (s - seg.seconds) * seg.bpm / 60

def changes (m : TempoMap α) : List (TempoSegment α) :=
  m.segments.filter fun seg => decide (0 < seg.seconds)

def initialTempo (m : TempoMap α) : α := m.first.bpm

def position (m : TempoMap α) : Amount α → α
  | .seconds x => x
  | .beats x => m.secondsAtBeat x

def span (m : TempoMap α) (start : α) : Amount α → α
  | .seconds x => x
  | .beats x => m.secondsAtBeat (m.beatAtSeconds start + x) - start

def retune (m : TempoMap α) (bpm : α) : TempoMap α :=
  match m.later.getLast? with
  | none => ⟨{ m.first with bpm := bpm }, []⟩
  | some seg => ⟨m.first, m.later.dropLast ++ [{ seg with bpm := bpm }]⟩

/-- Adds a stretch that starts at a beat and a second, not before the last one. -/
def extend (m : TempoMap α) (beat seconds bpm : α) : TempoMap α :=
  let last := m.last
  let (beat, seconds) :=
    if seconds < last.seconds then (last.beat, last.seconds) else (beat, seconds)
  if Scalar.magnitude (seconds - last.seconds) < 1e-9 then m.retune bpm
  else ⟨m.first, m.later ++ [⟨beat, seconds, bpm⟩]⟩

/-- Adds a breakpoint, unless its tempo is no positive number. -/
def insert (m : TempoMap α) (point : Amount α × α) : TempoMap α :=
  if Scalar.isPositive point.2 then
    match point.1 with
    | .seconds s => m.extend (m.beatAtSeconds s) s point.2
    | .beats b => m.extend b (m.secondsAtBeat b) point.2
  else m

def ofPoints (base : α) (points : List (Amount α × α)) : TempoMap α :=
  let place := fun (p : Amount α × α) => p.1.atTempo base
  let ordered := points.mergeSort fun p q => Scalar.sortsBefore (place p) (place q)
  ordered.foldl insert (constant base)

/-- The map of written breakpoints; one whose time cannot be read is left out. -/
def ofWritten (base quarters : α) (points : List (TempoPoint α)) : TempoMap α :=
  ofPoints base (points.filterMap fun p => (p.time.amount? quarters).map fun t => (t, p.bpm))

end TempoMap

def tempoAt {α : Type} [Scalar α] (points : List (TempoPoint α)) (base s : α) : α :=
  (TempoMap.ofWritten base 4 points).tempoAt s

end Partitura
