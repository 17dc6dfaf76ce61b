import Partitura.Tune.Timeline

/-!
# Laying out voices

The slots of a voice are laid on the bars, with rests between them, and a slot
that goes on over a bar line is tied. A mark before a note holds for its letter
and octave to the end of the bar, so that a note gets one only where it differs
from the mark in force or, without one, from the key. Changes of tempo and
remarks stand in the first voice: a remark at the first note at or after it.
-/

namespace Partitura

variable {α : Type} [Scalar α]

/-- The first letter in a key whose alteration gives a pitch class. -/
def keyLetter? (k : Key) (pitchClass : Int) : Option (Letter × Int) :=
  (Letter.all.map fun l => (l, k.offsetOf l)).find? fun (l, offset) =>
    offset != 0 && (l.semitone + offset) % 12 == pitchClass

/-- Letter and offset of a pitch class: the letters that the key alters first, then
sharps in a key of sharps and flats in a key of flats. -/
def letterInKey (k : Key) (pitchClass : Int) : Letter × Int :=
  match keyLetter? k pitchClass with
  | some found => found
  | none =>
    match spellClass pitchClass with
    | (l, none) => (l, 0)
    | (l, some _) => if 0 ≤ k.fifths then (l, 1) else ((spellClass (pitchClass + 1)).1, -1)

def spellInKey (k : Key) (n : Nat) : SpelledPitch :=
  let (letter, offset) := letterInKey k ((n : Int) % 12)
  ⟨letter, if offset = 0 then none else Accidental.ofOffset? offset,
    ((n : Int) - letter.semitone - offset) / 12 - 1⟩

/-- The marks in force in a bar, the latest first. -/
abbrev Marks := List ((Letter × Int) × Int)

def Marks.offset (marks : Marks) (k : Key) (letter : Letter) (octave : Int) : Int :=
  ((marks.find? fun m => m.1 == (letter, octave)).map Prod.snd).getD (k.offsetOf letter)

def writeHead (k : Key) (marks : Marks) (p : SlotPitch) : Head × Marks :=
  let p := match p with
    | .spelled p => p
    | .midi n => spellInKey k n
  let wanted := (p.accidental.map Accidental.offset).getD 0
  if wanted = marks.offset k p.letter p.octave then (⟨none, p.letter, p.octave⟩, marks)
  else (⟨Accidental.ofOffset? wanted, p.letter, p.octave⟩,
    ((p.letter, p.octave), wanted) :: marks)

def writeHeads (k : Key) (marks : Marks) : List SlotPitch → List Head × Marks
  | [] => ([], marks)
  | p :: rest =>
    let (head, marks) := writeHead k marks p
    let (heads, marks) := writeHeads k marks rest
    (head :: heads, marks)

/-- What the first voice has to bring in: tempos and remarks with their places, in order. -/
structure Cues (α : Type) where
  tempos : List (α × Nat)
  remarks : List (α × String)

namespace Cues

def none : Cues α := ⟨[], []⟩

def ofPerformance (p : Performance α) : Cues α where
  tempos := p.tempo.changes.map fun s => (s.beat, Scalar.word (Scalar.round s.bpm))
  remarks :=
    sortByTime Prod.fst (p.remarks.map fun r => (p.tempo.beatAtSeconds r.time, r.text))

end Cues

def isDue {β : Type} (place : α) (cue : α × β) : Bool := decide (cue.1 ≤ place + nearness)

/-- What a voice goes on with: the key, the marks and the loudness in force, and
the slots and cues that are left. -/
structure VoiceState (α : Type) where
  key : Key
  marks : Marks
  loudness : Option Loudness
  slots : List (Slot α)
  cues : Cues α

def openSlot (place : α) (slot : Slot α) (s : VoiceState α) :
    List String × List Ornament × VoiceState α :=
  let level := Loudness.ofVelocity slot.velocity
  let ornaments := if s.loudness = some level then [] else [Ornament.loudness level]
  ((s.cues.remarks.takeWhile (isDue place)).map Prod.snd, ornaments ++ slot.ornaments,
    { s with
      loudness := some level
      cues := { s.cues with remarks := s.cues.remarks.dropWhile (isDue place) } })

def slotToken (bar : Bar α) (place : α) (slot : Slot α) (s : VoiceState α) :
    Token × VoiceState α :=
  let stop := Scalar.minOf slot.stop bar.stop
  let (heads, marks) := writeHeads s.key s.marks slot.pitches
  let s := { s with marks := marks }
  let tie := decide (bar.stop + nearness < slot.stop)
  let length := Length.ofQuarters (stop - place)
  if bar.start - nearness ≤ slot.start then
    let (remarks, ornaments, s) := openSlot place slot s
    (⟨remarks, ornaments, heads, length, tie⟩, s)
  else (⟨[], [], heads, length, tie⟩, s)

def fillBar : Nat → Bar α → α → VoiceState α → List Element × VoiceState α
  | 0, _, _, s => ([], s)
  | fuel + 1, bar, place, s =>
    if place < bar.stop - nearness then
      let tempos := (s.cues.tempos.takeWhile (isDue place)).map fun t =>
        Element.field (.tempo t.2)
      let s := { s with
        cues := { s.cues with tempos := s.cues.tempos.dropWhile (isDue place) }
        slots := s.slots.dropWhile fun slot => decide (slot.stop ≤ place + nearness) }
      let rest := fun (stop : α) =>
        let (elements, s) := fillBar fuel bar stop s
        (tempos ++ .rest (Length.ofQuarters (stop - place)) :: elements, s)
      match s.slots with
      | [] => rest bar.stop
      | slot :: _ =>
        if slot.start ≤ place + nearness then
          let (token, s) := slotToken bar place slot s
          let (elements, s) := fillBar fuel bar (Scalar.minOf slot.stop bar.stop) s
          (tempos ++ .note token :: elements, s)
        else rest (Scalar.minOf slot.start bar.stop)
    else ([], s)

/-- The elements of a bar without the line after it. Every slot takes at most a rest and a note. -/
def layBar (bar : Bar α) (s : VoiceState α) : List Element × VoiceState α :=
  let meter := (bar.meter.map fun m => Element.field (.meter m)).toList
  let key := (bar.key.map fun k => Element.field (.key k)).toList
  let s := { s with key := bar.key.getD s.key, marks := [] }
  let (elements, s) := fillBar (2 * s.slots.length + 2) bar bar.start s
  (meter ++ key ++ elements, s)

/-- What stands after a bar: the last one has the final bar, and a line breaks after
every so many bars, unless that number is zero. -/
def barEnd (barsPerLine number : Nat) (isLast : Bool) : List Element :=
  if isLast then [.finalBar]
  else if barsPerLine ≠ 0 ∧ number % barsPerLine = 0 then [.barLine, .lineBreak]
  else [.barLine]

def layBars (barsPerLine : Nat) : Nat → List (Bar α) → VoiceState α →
    List Element × VoiceState α
  | _, [], s => ([], s)
  | number, bar :: rest, s =>
    let (elements, s) := layBar bar s
    let (later, s) := layBars barsPerLine (number + 1) rest s
    (elements ++ barEnd barsPerLine number rest.isEmpty ++ later, s)

/-- A voice laid on bars, and the cues that found no place in it. -/
def layVoice (id : Nat) (slots : List (Slot α)) (bars : List (Bar α)) (key : Key)
    (barsPerLine : Nat) (cues : Cues α) : Voice × Cues α :=
  let (elements, s) := layBars barsPerLine 1 bars ⟨key, [], none, slots, cues⟩
  (⟨id, elements⟩, s.cues)

end Partitura
