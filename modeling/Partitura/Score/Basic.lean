import Partitura.Controllers
import Partitura.Json.Basic
import Partitura.Music.Pitch
import Partitura.Time.Tempo

/-!
# Scores

A score is what every input is brought into: a header, maps of tempo, meter and
key, a graph of devices, parts with their notes, automation and annotations.
What a valid score needs and an input may lack stays optional here, so that its
absence can be reported. `rejected` holds what could not be read of a document
that claims to be a score already.
-/

namespace Partitura

def masterId : String := "master"

def formatName : String := "tessitura.composition"

def formatVersion : String := "1.0"

def defaultTempo : Nat := 120

structure Metadata where
  name : Option String
  author : Option String
  description : Option String
deriving DecidableEq, Repr, BEq

def Metadata.none : Metadata := ⟨.none, .none, .none⟩

def Metadata.isEmpty (m : Metadata) : Bool :=
  m.name.isNone && m.author.isNone && m.description.isNone

structure MeterPoint (α : Type) where
  time : WrittenTime α
  meter : String
deriving BEq

structure KeyPoint (α : Type) where
  time : WrittenTime α
  key : String
deriving BEq

/-- The options of a device, in ascending order of their names. -/
abbrev Options (α : Type) := Sorted (Json α)

structure GraphNode (α : Type) where
  id : String
  kind : DeviceKind
  options : Options α
  target : Option String
  preset : Option String
deriving BEq

structure Connection where
  ends : List String
deriving DecidableEq, Repr, BEq

def Connection.between (source target : String) : Connection := ⟨[source, target]⟩

def Connection.endpoints? : Connection → Option (String × String)
  | ⟨[source, target]⟩ => some (source, target)
  | _ => none

structure InlineDevice (α : Type) where
  kind : DeviceKind
  options : Options α
deriving BEq

inductive EffectRef (α : Type) where
  | node (id : String)
  | inline (device : InlineDevice α)
deriving BEq

inductive LoopSetting (α : Type) where
  | flag (on : Bool)
  | span (time : WrittenTime α)
deriving BEq

def LoopSetting.isOff {α : Type} : LoopSetting α → Bool
  | .flag on => !on
  | .span _ => false

inductive NotePitch where
  | single (pitch : PitchValue)
  | chord (pitches : List PitchValue)
deriving DecidableEq, Repr, BEq

def NotePitch.pitches : NotePitch → List PitchValue
  | .single p => [p]
  | .chord ps => ps

/-- A change made while a note sounds; its time counts from the start of the note.
Its value goes from 0 to 127, and for a pitch bend from -1 to 1. -/
structure Modulation (α : Type) where
  kind : ModulationKind
  controller : Option Int
  value : α
  time : Option (WrittenTime α)
deriving BEq

structure Note (α : Type) where
  note : Option NotePitch
  time : Option (WrittenTime α)
  duration : Option (WrittenTime α)
  velocity : Option α
  articulation : Option String
  microtuning : Option α
  channel : Option Int
  modulations : List (Modulation α)
deriving BEq

def Note.none {α : Type} : Note α :=
  ⟨.none, .none, .none, .none, .none, .none, .none, []⟩

structure Part (α : Type) where
  label : String
  synthRef : Option String
  synth : Option (InlineDevice α)
  effects : List (EffectRef α)
  notes : Option (List (Note α))
  looping : LoopSetting α
  loopEnd : Option (WrittenTime α)
  midiChannel : Option Int
deriving BEq

namespace Part

variable {α : Type}

def labelled (label : String) (notes : Option (List (Note α))) : Part α :=
  ⟨label, none, none, [], notes, .flag false, none, none⟩

def noteList (p : Part α) : List (Note α) := p.notes.getD []

def hasSynth (p : Part α) : Bool := p.synthRef.isSome || p.synth.isSome

end Part

structure AutomationPoint (α : Type) where
  target : String
  time : WrittenTime α
  value : α
  curve : Option String
deriving BEq

structure Remark (α : Type) where
  text : String
  time : WrittenTime α
  kind : Option String
deriving BEq

structure Score (α : Type) where
  format : Option String
  version : Option String
  bpm : Option α
  key : Option String
  meter : Option String
  tempoMap : List (TempoPoint α)
  meterMap : List (MeterPoint α)
  keyMap : List (KeyPoint α)
  metadata : Metadata
  graph : List (GraphNode α)
  connections : List Connection
  parts : Option (List (Part α))
  automation : List (AutomationPoint α)
  remarks : List (Remark α)
  rejected : List String
deriving BEq

namespace Score

variable {α : Type}

def blank : Score α where
  format := none
  version := none
  bpm := none
  key := none
  meter := none
  tempoMap := []
  meterMap := []
  keyMap := []
  metadata := .none
  graph := []
  connections := []
  parts := none
  automation := []
  remarks := []
  rejected := []

def empty : Score α := { blank with format := some formatName, version := some formatVersion }

def partList (s : Score α) : List (Part α) := s.parts.getD []

def node? (s : Score α) (id : String) : Option (GraphNode α) := s.graph.find? fun n => n.id == id

end Score

end Partitura
