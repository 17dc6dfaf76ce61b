import Partitura.Music.Pitch

/-!
# Keys

A key is a tonic and a mode. Its place on the circle of fifths says how many
letters are altered: sharps in the order F C G D A E B, flats in the reverse
order, at most seven of either.
-/

namespace Partitura

inductive Mode where
  | major | minor | ionian | dorian | phrygian | lydian | mixolydian | aeolian | locrian
deriving DecidableEq, Repr

namespace Mode

/-- The mode that a name or its abbreviation writes, in any case of ASCII
letters; no name for a mode is the major mode. -/
def parse? (text : String) : Option Mode :=
  let s := Text.lower (Text.trim text)
  if s ∈ ["maj", "major", ""] then some major
  else if s ∈ ["min", "minor", "m"] then some minor
  else if s ∈ ["ion", "ionian"] then some ionian
  else if s ∈ ["dor", "dorian"] then some dorian
  else if s ∈ ["phr", "phrygian"] then some phrygian
  else if s ∈ ["lyd", "lydian"] then some lydian
  else if s ∈ ["mix", "mixolydian"] then some mixolydian
  else if s ∈ ["aeo", "aeolian"] then some aeolian
  else if s ∈ ["loc", "locrian"] then some locrian
  else none

def fifths : Mode → Int
  | major | ionian => 0
  | minor | aeolian => -3
  | dorian => -2
  | phrygian => -4
  | lydian => 1
  | mixolydian => -1
  | locrian => -5

def suffix : Mode → String
  | major | ionian => ""
  | minor | aeolian => "m"
  | dorian => "dor"
  | phrygian => "phr"
  | lydian => "lyd"
  | mixolydian => "mix"
  | locrian => "loc"

def isMinor : Mode → Bool
  | minor | aeolian => true
  | _ => false

end Mode

structure Key where
  root : Letter
  accidental : Option Accidental
  mode : Mode
deriving DecidableEq, Repr

namespace Key

def cMajor : Key := ⟨.c, none, .major⟩

instance : Inhabited Key := ⟨cMajor⟩

def parse? (text : String) : Option Key :=
  match Text.trimChars text.toList with
  | [] => none
  | first :: rest => do
    let root ← Letter.ofChar? first
    let (accidental, rest) : Option Accidental × List Char := match rest with
      | '#' :: r => (some .sharp, r)
      | '♯' :: r => (some .sharp, r)
      | 'b' :: r => (some .flat, r)
      | '♭' :: r => (some .flat, r)
      | r => (none, r)
    let mode ← Mode.parse? (String.ofList rest)
    some ⟨root, accidental, mode⟩

def letterFifths : Letter → Int
  | .f => -1
  | .c => 0
  | .g => 1
  | .d => 2
  | .a => 3
  | .e => 4
  | .b => 5

def fifths (k : Key) : Int :=
  letterFifths k.root + (k.accidental.map fun a => 7 * a.offset).getD 0 + k.mode.fifths

def signature (k : Key) : Int := max (-7) (min 7 k.fifths)

def sharpOrder : List Letter := [.f, .c, .g, .d, .a, .e, .b]
def flatOrder : List Letter := [.b, .e, .a, .d, .g, .c, .f]

def accidentals (k : Key) : List (Letter × Accidental) :=
  if 0 ≤ k.signature then (sharpOrder.take k.signature.toNat).map fun l => (l, .sharp)
  else (flatOrder.take k.signature.natAbs).map fun l => (l, .flat)

def offsetOf (k : Key) (l : Letter) : Int :=
  ((k.accidentals.find? fun entry => entry.1 == l).map fun entry => entry.2.offset).getD 0

/-- The key in staff notation; double marks are not written. -/
def notated (k : Key) : String :=
  let mark := match k.accidental with
    | some .sharp => "#"
    | some .flat => "b"
    | _ => ""
  k.root.upper.toString ++ mark ++ k.mode.suffix

/-- The two bytes of a key in a sequencer file: the signed place on the circle, and the mode. -/
def midiBytes (k : Key) : Nat × Nat :=
  ((k.signature % 256).toNat, if k.mode.isMinor then 1 else 0)

end Key

end Partitura
