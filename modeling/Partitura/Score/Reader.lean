import Partitura.Json.Decode
import Partitura.Score.Basic

/-!
# Reading scores

Each part of a score is read from its JSON value. Times, pitches, loops and
effects may have several forms, and a failure then names the type that was asked
for.
-/

namespace Partitura

variable {α : Type} [Scalar α]

open Json

def WrittenTime.read : Json α → Except DecodeError (WrittenTime α) :=
  asOneOf "TimeExpr" [fun j => .seconds <$> j.asScalar, fun j => .text <$> j.asString]

def PitchValue.read : Json α → Except DecodeError PitchValue :=
  asOneOf "PitchValue" [fun j => .midi <$> j.asInt64, fun j => .name <$> j.asString]

def NotePitch.read : Json α → Except DecodeError NotePitch :=
  asOneOf "NotePitch" [fun j => .single <$> PitchValue.read j,
    fun j => .chord <$> j.asList PitchValue.read]

def DeviceKind.read (j : Json α) : Except DecodeError DeviceKind :=
  DeviceKind.parse <$> j.asString

def ModulationKind.read (j : Json α) : Except DecodeError ModulationKind :=
  ModulationKind.parse <$> j.asString

def Options.read : Json α → Except DecodeError (Options α) := asTable .ok

def TempoPoint.read : Json α → Except DecodeError (TempoPoint α) :=
  asRecord "TempoPoint" ["time", "bpm"] ["time", "bpm"] (none, none)
    (fun d name j => match name with
      | "time" => do .ok (some (← WrittenTime.read j), d.2)
      | "bpm" => do .ok (d.1, some (← j.asScalar))
      | _ => .ok d)
    (fun d => do .ok ⟨← need "time" d.1, ← need "bpm" d.2⟩)

def readTimedText (type field : String) : Json α → Except DecodeError (WrittenTime α × String) :=
  asRecord type ["time", field] ["time", field] (none, none)
    (fun d name j =>
      if name = "time" then do .ok (some (← WrittenTime.read j), d.2)
      else if name = field then do .ok (d.1, some (← j.asString))
      else .ok d)
    (fun d => do .ok (← need "time" d.1, ← need field d.2))

def MeterPoint.read (j : Json α) : Except DecodeError (MeterPoint α) :=
  (fun r => ⟨r.1, r.2⟩) <$> readTimedText "MeterChange" "timeSignature" j

def KeyPoint.read (j : Json α) : Except DecodeError (KeyPoint α) :=
  (fun r => ⟨r.1, r.2⟩) <$> readTimedText "KeyChange" "keySignature" j

def Metadata.read : Json α → Except DecodeError Metadata :=
  asRecord "Metadata" ["name", "author", "description"] [] Metadata.none
    (fun d name j => match name with
      | "name" => do .ok { d with name := ← j.asOption asString }
      | "author" => do .ok { d with author := ← j.asOption asString }
      | "description" => do .ok { d with description := ← j.asOption asString }
      | _ => .ok d)
    .ok

def GraphNode.draft : Option String × GraphNode α := (none, ⟨"", .unnamed, [], none, none⟩)

def GraphNode.read : Json α → Except DecodeError (GraphNode α) :=
  asRecord "AudioGraphNode" ["id", "type", "options", "target", "presetRef"] ["id"]
    GraphNode.draft
    (fun d name j => match name with
      | "id" => do .ok (some (← j.asString), d.2)
      | "type" => do .ok (d.1, { d.2 with kind := ← DeviceKind.read j })
      | "options" => do .ok (d.1, { d.2 with options := ← Options.read j })
      | "target" => do .ok (d.1, { d.2 with target := ← j.asOption asString })
      | "presetRef" => do .ok (d.1, { d.2 with preset := ← j.asOption asString })
      | _ => .ok d)
    (fun d => do .ok { d.2 with id := ← need "id" d.1 })

def Connection.read (j : Json α) : Except DecodeError Connection :=
  Connection.mk <$> j.asList asString

def InlineDevice.read : Json α → Except DecodeError (InlineDevice α) :=
  asRecord "DeviceSpec" ["type", "options"] [] ⟨.unnamed, []⟩
    (fun d name j => match name with
      | "type" => do .ok { d with kind := ← DeviceKind.read j }
      | "options" => do .ok { d with options := ← Options.read j }
      | _ => .ok d)
    .ok

def EffectRef.read : Json α → Except DecodeError (EffectRef α) :=
  asOneOf "EffectRef" [fun j => .node <$> j.asString, fun j => .inline <$> InlineDevice.read j]

def asBool : Json α → Except DecodeError Bool
  | .bool b => .ok b
  | j => j.mismatch "a boolean"

def LoopSetting.read : Json α → Except DecodeError (LoopSetting α) :=
  asOneOf "LoopSpec" [fun j => .flag <$> asBool j, fun j => .span <$> WrittenTime.read j]

def Modulation.read : Json α → Except DecodeError (Modulation α) :=
  asRecord "Modulation" ["type", "controller", "value", "time"] [] ⟨.unnamed, none, 0, none⟩
    (fun d name j => match name with
      | "type" => do .ok { d with kind := ← ModulationKind.read j }
      | "controller" => do .ok { d with controller := ← j.asOption asInt64 }
      | "value" => do .ok { d with value := ← j.asScalar }
      | "time" => do .ok { d with time := ← j.asOption WrittenTime.read }
      | _ => .ok d)
    .ok

def Note.read : Json α → Except DecodeError (Note α) :=
  asRecord "NoteEvent"
    ["note", "time", "duration", "velocity", "articulation", "microtuning", "channel",
      "modulations"] [] Note.none
    (fun d name j => match name with
      | "note" => do .ok { d with note := ← j.asOption NotePitch.read }
      | "time" => do .ok { d with time := ← j.asOption WrittenTime.read }
      | "duration" => do .ok { d with duration := ← j.asOption WrittenTime.read }
      | "velocity" => do .ok { d with velocity := ← j.asOption asScalar }
      | "articulation" => do .ok { d with articulation := ← j.asOption asString }
      | "microtuning" => do .ok { d with microtuning := ← j.asOption asScalar }
      | "channel" => do .ok { d with channel := ← j.asOption asInt64 }
      | "modulations" => do .ok { d with modulations := ← j.asList Modulation.read }
      | _ => .ok d)
    .ok

def Part.read : Json α → Except DecodeError (Part α) :=
  asRecord "Sequence"
    ["label", "synthRef", "synth", "effects", "notes", "loop", "loopEnd", "midiChannel"] []
    (Part.labelled "" none)
    (fun d name j => match name with
      | "label" => do .ok { d with label := ← j.asString }
      | "synthRef" => do .ok { d with synthRef := ← j.asOption asString }
      | "synth" => do .ok { d with synth := ← j.asOption InlineDevice.read }
      | "effects" => do .ok { d with effects := ← j.asList EffectRef.read }
      | "notes" => do .ok { d with notes := ← j.asOption (asList Note.read) }
      | "loop" => do .ok { d with looping := ← LoopSetting.read j }
      | "loopEnd" => do .ok { d with loopEnd := ← j.asOption WrittenTime.read }
      | "midiChannel" => do .ok { d with midiChannel := ← j.asOption asInt64 }
      | _ => .ok d)
    .ok

def AutomationPoint.read : Json α → Except DecodeError (AutomationPoint α) :=
  asRecord "AutomationEvent" ["target", "time", "value", "curve"] ["target", "time", "value"]
    (none, none, none, none)
    (fun d name j => match name with
      | "target" => do .ok (some (← j.asString), d.2)
      | "time" => do .ok (d.1, some (← WrittenTime.read j), d.2.2)
      | "value" => do .ok (d.1, d.2.1, some (← j.asScalar), d.2.2.2)
      | "curve" => do .ok (d.1, d.2.1, d.2.2.1, ← j.asOption asString)
      | _ => .ok d)
    (fun d => do .ok ⟨← need "target" d.1, ← need "time" d.2.1, ← need "value" d.2.2.1, d.2.2.2⟩)

def Remark.read : Json α → Except DecodeError (Remark α) :=
  asRecord "Annotation" ["text", "time", "type"] ["text", "time"] (none, none, none)
    (fun d name j => match name with
      | "text" => do .ok (some (← j.asString), d.2)
      | "time" => do .ok (d.1, some (← WrittenTime.read j), d.2.2)
      | "type" => do .ok (d.1, d.2.1, ← j.asOption asString)
      | _ => .ok d)
    (fun d => do .ok ⟨← need "text" d.1, ← need "time" d.2.1, d.2.2⟩)

/-- A version may be written as a text or as a number; anything else is no version. -/
def readVersion : Json α → Option String
  | .str s => some s
  | .int n => some (toString n)
  | .real x => some (Scalar.documentText x)
  | _ => none

namespace Score

def fieldNames : List String :=
  ["formatId", "version", "bpm", "keySignature", "timeSignature", "tempoMap", "timeSignatureMap",
   "keySignatureMap", "metadata", "audioGraph", "connections", "sequences", "automation",
   "annotations"]

def readField (s : Score α) (name : String) (j : Json α) : Except DecodeError (Score α) :=
  match name with
  | "formatId" => do .ok { s with format := ← j.asOption asString }
  | "version" => .ok { s with version := readVersion j }
  | "bpm" => do .ok { s with bpm := ← j.asOption asScalar }
  | "keySignature" => do .ok { s with key := ← j.asOption asString }
  | "timeSignature" => do .ok { s with meter := ← j.asOption asString }
  | "tempoMap" => do .ok { s with tempoMap := ← j.asList TempoPoint.read }
  | "timeSignatureMap" => do .ok { s with meterMap := ← j.asList MeterPoint.read }
  | "keySignatureMap" => do .ok { s with keyMap := ← j.asList KeyPoint.read }
  | "metadata" => do .ok { s with metadata := ← Metadata.read j }
  | "audioGraph" => do .ok { s with graph := ← j.asList GraphNode.read }
  | "connections" => do .ok { s with connections := ← j.asList Connection.read }
  | "sequences" => do .ok { s with parts := ← j.asOption (asList Part.read) }
  | "automation" => do .ok { s with automation := ← j.asList AutomationPoint.read }
  | "annotations" => do .ok { s with remarks := ← j.asList Remark.read }
  | _ => .ok s

def read : Json α → Except DecodeError (Score α) :=
  asRecord "Composition" fieldNames [] blank readField .ok

end Score

end Partitura
