import Partitura.Performance.Basic

/-!
# Bars

The time line is cut into bars that follow the meter, in quarter notes from the
start. A change of meter within a bar cuts it short. A change of key takes hold
at the first bar line at or after it. A bar notes the meter and the key that
change at its start.
-/

namespace Partitura

structure Bar (α : Type) where
  start : α
  stop : α
  meter : Option Meter
  key : Option Key

structure BeatChange (α β : Type) where
  beat : α
  value : β

variable {α : Type} [Scalar α]

def Change.onBeat {β : Type} (tempo : TempoMap α) (c : Change α β) : BeatChange α β :=
  ⟨tempo.beatAtSeconds c.seconds, c.value⟩

/-- The value after all changes up to a place, whether it differs from some change
on, and the changes that are left. -/
def takeChanges {β : Type} [DecidableEq β] (place : α) (current : β) (changed : Option β) :
    List (BeatChange α β) → β × Option β × List (BeatChange α β)
  | [] => (current, changed, [])
  | c :: rest =>
    if c.beat ≤ place + nearness then
      if c.value = current then takeChanges place current changed rest
      else takeChanges place c.value (some c.value) rest
    else (current, changed, c :: rest)

/-- Where a bar ends that starts at a place: after a bar of the meter, or before
that at the next change of meter. -/
def barStop (start : α) (meter : Meter) (changes : List (BeatChange α Meter)) : α :=
  let full := start + meter.quarters
  match changes with
  | c :: _ => if c.beat < full - nearness then c.beat else full
  | [] => full

/-- The bars from a place to the first bar line at or after the end. -/
def barsFrom : Nat → α → α → Meter → Key → List (BeatChange α Meter) → List (BeatChange α Key) →
    List (Bar α)
  | 0, _, _, _, _, _, _ => []
  | fuel + 1, stop, place, meter, key, meters, keys =>
    let (meter, newMeter, meters) := takeChanges place meter none meters
    let (key, newKey, keys) := takeChanges place key none keys
    let next := barStop place meter meters
    ⟨place, next, newMeter, newKey⟩ ::
      (if stop - nearness ≤ next then []
       else barsFrom fuel stop next meter key meters keys)

/-- More bars than can be needed where beats are exact: a full bar has at least a 32nd of a quarter,
and each change of meter cuts one short. -/
def barLimit (stop : α) (changes : Nat) : Nat :=
  2 * (32 * (Scalar.wholePart stop).toNat + changes) + 64

/-- The bars up to an end. Towards an end that is never reached, since it is infinite or so far that
a bar is too short to be added to it, bars are laid up to the limit and no further. -/
def barGrid (p : Performance α) (stop : α) : List (Bar α) :=
  barsFrom (barLimit stop p.meterChanges.length) stop 0 p.meter (p.key.getD .cMajor)
    (p.meterChanges.map (Change.onBeat p.tempo)) (p.keyChanges.map (Change.onBeat p.tempo))

end Partitura
