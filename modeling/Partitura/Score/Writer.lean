import Partitura.Score.Basic

/-!
# Writing scores

The document of a score has its fields in their order. What is absent or empty
is left out, and a number that is not finite is written as null. Reading the
document gives the score back.
-/

namespace Partitura

variable {α : Type}

def optionalField (name : String) : Option (Json α) → List (String × Json α)
  | some v => [(name, v)]
  | none => []

def listField (name : String) (items : List (Json α)) : List (String × Json α) :=
  if items.isEmpty then [] else [(name, .arr items)]

def textField (name : String) (s : Option String) : List (String × Json α) :=
  optionalField name (s.map .str)

variable [Scalar α]

def scalarField (name : String) (x : Option α) : List (String × Json α) :=
  optionalField name (x.map Json.ofScalar)

def WrittenTime.toJson : WrittenTime α → Json α
  | .seconds x => Json.ofScalar x
  | .text s => .str s

def timeField (name : String) (t : Option (WrittenTime α)) : List (String × Json α) :=
  optionalField name (t.map WrittenTime.toJson)

def PitchValue.toJson : PitchValue → Json α
  | .midi n => .int n
  | .name s => .str s

def NotePitch.toJson : NotePitch → Json α
  | .single p => p.toJson
  | .chord ps => .arr (ps.map PitchValue.toJson)

def TempoPoint.toJson (p : TempoPoint α) : Json α :=
  .obj [("time", p.time.toJson), ("bpm", Json.ofScalar p.bpm)]

def MeterPoint.toJson (p : MeterPoint α) : Json α :=
  .obj [("time", p.time.toJson), ("timeSignature", .str p.meter)]

def KeyPoint.toJson (p : KeyPoint α) : Json α :=
  .obj [("time", p.time.toJson), ("keySignature", .str p.key)]

def Metadata.toJson (m : Metadata) : Json α :=
  .obj (textField "name" m.name ++ textField "author" m.author
    ++ textField "description" m.description)

def optionsField (options : Options α) : List (String × Json α) :=
  if options.isEmpty then [] else [("options", .obj options)]

def GraphNode.toJson (n : GraphNode α) : Json α :=
  .obj ([("id", .str n.id), ("type", .str n.kind.text)] ++ optionsField n.options
    ++ textField "target" n.target ++ textField "presetRef" n.preset)

def Connection.toJson (c : Connection) : Json α := .arr (c.ends.map .str)

def InlineDevice.toJson (d : InlineDevice α) : Json α :=
  .obj (("type", .str d.kind.text) :: optionsField d.options)

def EffectRef.toJson : EffectRef α → Json α
  | .node id => .str id
  | .inline d => d.toJson

def LoopSetting.toJson : LoopSetting α → Json α
  | .flag on => .bool on
  | .span t => t.toJson

def Modulation.toJson (m : Modulation α) : Json α :=
  .obj ([("type", .str m.kind.text)] ++ optionalField "controller" (m.controller.map .int)
    ++ [("value", Json.ofScalar m.value)] ++ timeField "time" m.time)

def Note.toJson (n : Note α) : Json α :=
  .obj (optionalField "note" (n.note.map NotePitch.toJson) ++ timeField "time" n.time
    ++ timeField "duration" n.duration ++ scalarField "velocity" n.velocity
    ++ textField "articulation" n.articulation ++ scalarField "microtuning" n.microtuning
    ++ optionalField "channel" (n.channel.map .int)
    ++ listField "modulations" (n.modulations.map Modulation.toJson))

def Part.toJson (p : Part α) : Json α :=
  .obj ([("label", .str p.label)] ++ textField "synthRef" p.synthRef
    ++ optionalField "synth" (p.synth.map InlineDevice.toJson)
    ++ listField "effects" (p.effects.map EffectRef.toJson)
    ++ optionalField "notes" (p.notes.map fun ns => .arr (ns.map Note.toJson))
    ++ (if p.looping.isOff then [] else [("loop", p.looping.toJson)])
    ++ timeField "loopEnd" p.loopEnd
    ++ optionalField "midiChannel" (p.midiChannel.map .int))

def AutomationPoint.toJson (e : AutomationPoint α) : Json α :=
  .obj ([("target", .str e.target), ("time", e.time.toJson), ("value", Json.ofScalar e.value)]
    ++ textField "curve" e.curve)

def Remark.toJson (a : Remark α) : Json α :=
  .obj ([("text", .str a.text), ("time", a.time.toJson)] ++ textField "type" a.kind)

/-- The document of a score; what was rejected is not part of it. -/
def Score.toJson (s : Score α) : Json α :=
  .obj (textField "formatId" s.format ++ textField "version" s.version
    ++ scalarField "bpm" s.bpm
    ++ textField "keySignature" s.key ++ textField "timeSignature" s.meter
    ++ listField "tempoMap" (s.tempoMap.map TempoPoint.toJson)
    ++ listField "timeSignatureMap" (s.meterMap.map MeterPoint.toJson)
    ++ listField "keySignatureMap" (s.keyMap.map KeyPoint.toJson)
    ++ (if s.metadata.isEmpty then [] else [("metadata", s.metadata.toJson)])
    ++ listField "audioGraph" (s.graph.map GraphNode.toJson)
    ++ listField "connections" (s.connections.map Connection.toJson)
    ++ optionalField "sequences" (s.parts.map fun ps => .arr (ps.map Part.toJson))
    ++ listField "automation" (s.automation.map AutomationPoint.toJson)
    ++ listField "annotations" (s.remarks.map Remark.toJson))

end Partitura
