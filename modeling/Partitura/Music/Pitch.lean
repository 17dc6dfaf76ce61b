import Partitura.Number.Numeral
import Partitura.Text.Blank

/-!
# Pitches and their spellings

A pitch is given by a name such as `F#3` or by a number, middle C being 60 and
spelled `C4`. Only the numbers 0 to 127 can be played. A name keeps its own
spelling; a number is spelled with sharps.
-/

namespace Partitura

inductive Letter where
  | c | d | e | f | g | a | b
deriving DecidableEq, Repr

namespace Letter

def all : List Letter := [c, d, e, f, g, a, b]

def semitone : Letter → Int
  | c => 0
  | d => 2
  | e => 4
  | f => 5
  | g => 7
  | a => 9
  | b => 11

def upper : Letter → Char
  | c => 'C'
  | d => 'D'
  | e => 'E'
  | f => 'F'
  | g => 'G'
  | a => 'A'
  | b => 'B'

def ofChar? (ch : Char) : Option Letter := all.find? fun l => l.upper == ch.toUpper

theorem ofChar?_upper (l : Letter) : ofChar? l.upper = some l := by cases l <;> decide

end Letter

inductive Accidental where
  | doubleSharp | sharp | natural | flat | doubleFlat
deriving DecidableEq, Repr

namespace Accidental

def offset : Accidental → Int
  | doubleSharp => 2
  | sharp => 1
  | natural => 0
  | flat => -1
  | doubleFlat => -2

def ofOffset? (n : Int) : Option Accidental :=
  [doubleSharp, sharp, natural, flat, doubleFlat].find? fun a => a.offset == n

def parse? (s : String) : Option Accidental :=
  if s ∈ ["#", "♯", "s"] then some sharp
  else if s ∈ ["b", "♭"] then some flat
  else if s ∈ ["##", "x", "𝄪"] then some doubleSharp
  else if s ∈ ["bb", "𝄫"] then some doubleFlat
  else if s ∈ ["n", "♮"] then some natural
  else none

def sign : Accidental → String
  | doubleSharp => "##"
  | sharp => "#"
  | natural => ""
  | flat => "b"
  | doubleFlat => "bb"

end Accidental

/-- A pitch with its spelling; octave 4 starts at middle C. -/
structure SpelledPitch where
  letter : Letter
  accidental : Option Accidental
  octave : Int
deriving DecidableEq, Repr

def spellClass (semitone : Int) : Letter × Option Accidental :=
  match (semitone % 12).toNat with
  | 0 => (.c, none)
  | 1 => (.c, some .sharp)
  | 2 => (.d, none)
  | 3 => (.d, some .sharp)
  | 4 => (.e, none)
  | 5 => (.f, none)
  | 6 => (.f, some .sharp)
  | 7 => (.g, none)
  | 8 => (.g, some .sharp)
  | 9 => (.a, none)
  | 10 => (.a, some .sharp)
  | _ => (.b, none)

def playable? (n : Int) : Option Nat := if 0 ≤ n ∧ n ≤ 127 then some n.toNat else none

namespace SpelledPitch

/-- Reads a letter, an optional mark and an optional octave, which is 4 when it is left out. -/
def parse? (text : String) : Option SpelledPitch :=
  match Text.trimChars text.toList with
  | [] => none
  | first :: rest => do
    let letter ← Letter.ofChar? first
    let startsOctave := fun (c : Char) => c.isDigit || c == '-'
    let mark := rest.takeWhile fun c => !startsOctave c
    let octaveText := rest.dropWhile fun c => !startsOctave c
    let accidental ←
      if mark.isEmpty then some none else (Accidental.parse? (String.ofList mark)).map some
    let octave ← if octaveText.isEmpty then some 4 else Number.int32? (String.ofList octaveText)
    some ⟨letter, accidental, octave⟩

def ofMidi (n : Nat) : SpelledPitch :=
  let (letter, accidental) := spellClass n
  ⟨letter, accidental, (n : Int) / 12 - 1⟩

/-- The number of the pitch, playable or not. It is counted in 32 bits, so a pitch of an octave
too far out has the number of another one. -/
def number (p : SpelledPitch) : Int :=
  ((Int32.ofInt p.octave + 1) * 12 + Int32.ofInt p.letter.semitone
    + Int32.ofInt ((p.accidental.map Accidental.offset).getD 0)).toInt

def midi? (p : SpelledPitch) : Option Nat := playable? p.number

def text (p : SpelledPitch) : String :=
  p.letter.upper.toString ++ (p.accidental.map Accidental.sign).getD "" ++ toString p.octave

end SpelledPitch

inductive PitchValue where
  | midi (n : Int)
  | name (s : String)
deriving DecidableEq, Repr

namespace PitchValue

def text : PitchValue → String
  | .midi n => toString n
  | .name s => s

def numeric? (s : String) : Option Int := Number.int64? (Text.trim s)

/-- The playable number of a pitch; a name may also write a number. -/
def midi? : PitchValue → Option Nat
  | .midi n => playable? n
  | .name s =>
    match numeric? s with
    | some n => playable? n
    | none => (SpelledPitch.parse? s).bind SpelledPitch.midi?

def isNamed : PitchValue → Bool
  | .midi _ => false
  | .name s => (numeric? s).isNone

def spell? (p : PitchValue) : Option SpelledPitch :=
  match p with
  | .midi n => (playable? n).map SpelledPitch.ofMidi
  | .name s =>
    match numeric? s with
    | some n => (playable? n).map SpelledPitch.ofMidi
    | none => (SpelledPitch.parse? s).bind fun q => q.midi?.map fun _ => q

end PitchValue

def defaultPitch : Nat := 60

end Partitura
