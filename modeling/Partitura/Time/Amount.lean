import Partitura.Number.Numeral
import Partitura.Text.Blank

/-!
# Times as they are written

A time is written as a number of seconds or as a text. A text holds bars, beats
and ticks with colons between them, or a number of seconds, or a note value such
as `4n` (a quarter), `8t` (an eighth triplet) or `2m` (two bars of four
quarters), a point after which makes it half as long again. Read, it is an
amount of seconds or of beats, a beat being a quarter note; bars have the length
of the meter's bar.
-/

namespace Partitura

inductive WrittenTime (α : Type) where
  | seconds (x : α)
  | text (s : String)
deriving DecidableEq, Repr, BEq

inductive Amount (α : Type) where
  | seconds (x : α)
  | beats (x : α)
deriving DecidableEq, Repr, BEq

variable {α : Type} [Scalar α]

namespace Amount

def ticksPerBeat : Nat := 480

def finite? (s : String) : Option α := (Number.scalar? s).filter Scalar.isFinite

/-- One field between colons; an empty one is zero. -/
def field? (s : String) : Option α := if s.isEmpty then some 0 else finite? s

/-- The beats of fields of bars, beats and ticks, of which the later ones may be missing. -/
def ofFields? (quarters : α) : List String → Option α
  | [b] => do some ((← field? b) * quarters + 0 + 0 / Scalar.ofInt ticksPerBeat)
  | [b, q] => do
    some ((← field? b) * quarters + (← field? q) + 0 / Scalar.ofInt ticksPerBeat)
  | [b, q, t] => do
    some ((← field? b) * quarters + (← field? q) + (← field? t) / Scalar.ofInt ticksPerBeat)
  | _ => none

def unitBeats? (value : α) : Char → Option α
  | 'n' => some (4 / value)
  | 'm' => some (4 * value)
  | 'h' => some (2 * value)
  | 'q' => some value
  | 'w' => some (4 * value)
  | 't' => some (4 / value * (2 / 3))
  | 's' => some (value / 4)
  | _ => none

/-- The beats of a note value: a positive number, a unit, and perhaps a point. -/
def ofNoteValue? (s : String) : Option α :=
  let cs := s.toList
  let dotted := cs.getLast? == some '.'
  let body := if dotted then cs.dropLast else cs
  match body.getLast? with
  | none => none
  | some unit => do
    let value : α ← finite? (String.ofList body.dropLast)
    if 0 < value then
      let beats ← unitBeats? value unit
      some (if dotted then beats * 1.5 else beats)
    else none

def ofText? (quarters : α) (s : String) : Option (Amount α) :=
  if s.toList.contains ':' then
    (ofFields? quarters ((Text.cutAt ':' s).map Text.trim)).map beats
  else match Number.scalar? s with
    | some x => if Scalar.isFinite x then some (seconds x) else none
    | none => (ofNoteValue? s).map beats

def atTempo (bpm : α) : Amount α → α
  | seconds x => x
  | beats x => x * 60 / bpm

end Amount

namespace WrittenTime

def amount? (quarters : α) : WrittenTime α → Option (Amount α)
  | seconds x => if Scalar.isFinite x then some (.seconds x) else none
  | text s => Amount.ofText? quarters (Text.trim s)

def display : WrittenTime α → String
  | seconds x => Scalar.plainText x
  | text s => s

/-- Seconds at a constant tempo; a time that cannot be read counts as zero. -/
def atTempo (bpm quarters : α) (t : WrittenTime α) : α :=
  ((t.amount? quarters).map (Amount.atTempo bpm)).getD 0

end WrittenTime

end Partitura
