import Partitura.Score.Basic

/-!
# Building scores

Scores, parts and notes put together piece by piece. A score that starts with a
name is in the current format, at the usual tempo, and has a list of parts.
-/

namespace Partitura

variable {α : Type}

namespace Note

def sounding (pitch : NotePitch) (time duration : WrittenTime α) : Note α :=
  { Note.none with note := some pitch, time := some time, duration := some duration }

def withVelocity (n : Note α) (velocity : α) : Note α := { n with velocity := some velocity }

def withArticulation (n : Note α) (name : String) : Note α :=
  { n with articulation := some name }

def withModulation (n : Note α) (m : Modulation α) : Note α :=
  { n with modulations := n.modulations ++ [m] }

end Note

namespace Modulation

def ofController (controller : Int) (value : α) (time : WrittenTime α) : Modulation α :=
  ⟨.control, some controller, value, some time⟩

def ofBend (value : α) (time : WrittenTime α) : Modulation α :=
  ⟨.pitchBend, none, value, some time⟩

def ofPressure (value : α) (time : WrittenTime α) : Modulation α :=
  ⟨.aftertouch, none, value, some time⟩

end Modulation

namespace Part

def playing (p : Part α) (id : String) : Part α := { p with synthRef := some id }

def withDevice (p : Part α) (device : InlineDevice α) : Part α := { p with synth := some device }

def withNote (p : Part α) (n : Note α) : Part α := { p with notes := some (p.noteList ++ [n]) }

def looped (p : Part α) (setting : LoopSetting α) (loopEnd : Option (WrittenTime α)) : Part α :=
  { p with looping := setting, loopEnd := loopEnd }

def onChannel (p : Part α) (channel : Int) : Part α := { p with midiChannel := some channel }

end Part

namespace GraphNode

def ofKind (id : String) (kind : DeviceKind) : GraphNode α := ⟨id, kind, [], none, none⟩

def withOption (n : GraphNode α) (name : String) (value : Json α) : GraphNode α :=
  { n with options := Sorted.insert name value n.options }

def withTarget (n : GraphNode α) (target : String) : GraphNode α :=
  { n with target := some target }

end GraphNode

namespace Score

def named [Scalar α] (name : String) : Score α :=
  { Score.empty with
    bpm := some (Scalar.ofInt defaultTempo)
    metadata := ⟨some name, none, none⟩
    parts := some [] }

def withTempo (s : Score α) (bpm : α) : Score α := { s with bpm := some bpm }

def withNode (s : Score α) (n : GraphNode α) : Score α := { s with graph := s.graph ++ [n] }

def connect (s : Score α) (source target : String) : Score α :=
  { s with connections := s.connections ++ [.between source target] }

def withPart (s : Score α) (p : Part α) : Score α := { s with parts := some (s.partList ++ [p]) }

end Score

end Partitura
