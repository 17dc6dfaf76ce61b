import Partitura.Json.Decode
import Partitura.Music.Key
import Partitura.Music.Meter

/-!
# Keys, meters and pitches in documents

Letters, accidentals and modes are written by name; a key, a meter and a spelled
pitch are records of them.
-/

namespace Partitura

variable {α : Type} [Scalar α]

open Json

def Letter.names : List (String × Letter) :=
  Letter.all.map fun l => (l.upper.toString, l)

def Accidental.names : List (String × Accidental) :=
  [("DoubleSharp", .doubleSharp), ("Sharp", .sharp), ("Natural", .natural), ("Flat", .flat),
   ("DoubleFlat", .doubleFlat)]

def Mode.names : List (String × Mode) :=
  [("Major", .major), ("Minor", .minor), ("Ionian", .ionian), ("Dorian", .dorian),
   ("Phrygian", .phrygian), ("Lydian", .lydian), ("Mixolydian", .mixolydian),
   ("Aeolian", .aeolian), ("Locrian", .locrian)]

def nameIn {β : Type} [DecidableEq β] (names : List (String × β)) (v : β) : String :=
  ((names.find? fun e => e.2 = v).map Prod.fst).getD ""

def Letter.toJson (l : Letter) : Json α := .str (nameIn Letter.names l)

def Accidental.toJson (a : Accidental) : Json α := .str (nameIn Accidental.names a)

def Mode.toJson (m : Mode) : Json α := .str (nameIn Mode.names m)

def optionToJson {β : Type} (write : β → Json α) : Option β → Json α
  | some v => write v
  | none => .null

def Key.toJson (k : Key) : Json α :=
  .obj [("root", k.root.toJson), ("accidental", optionToJson Accidental.toJson k.accidental),
    ("mode", k.mode.toJson)]

def Key.read : Json α → Except DecodeError Key :=
  asRecord "KeySignature" ["root", "accidental", "mode"] ["root", "accidental", "mode"]
    (none, none, none)
    (fun d name j => match name with
      | "root" => do .ok (some (← j.asName Letter.names), d.2)
      | "accidental" => do .ok (d.1, ← j.asOption (asName Accidental.names), d.2.2)
      | "mode" => do .ok (d.1, d.2.1, some (← j.asName Mode.names))
      | _ => .ok d)
    (fun d => do .ok ⟨← need "root" d.1, d.2.1, ← need "mode" d.2.2⟩)

def Meter.toJson (m : Meter) : Json α :=
  .obj [("numerator", .int m.numerator), ("denominator", .int m.denominator)]

def SpelledPitch.toJson (p : SpelledPitch) : Json α :=
  .obj [("name", p.letter.toJson), ("accidental", optionToJson Accidental.toJson p.accidental),
    ("octave", .int p.octave)]

end Partitura
