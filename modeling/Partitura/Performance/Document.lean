import Partitura.Music.Document
import Partitura.Performance.Basic
import Partitura.Score.Writer

/-!
# Documents of performances

A performance is written with all its fields in their order; what is absent is
null, except in the metadata and the graph, which are written as in a score.
-/

namespace Partitura

variable {α : Type} [Scalar α]

def Level.toJson (l : Level) : Json α := .str l.name

def textOrNull : Option String → Json α := optionToJson .str

def Diagnostic.toJson (d : Diagnostic) : Json α :=
  .obj [("level", d.level.toJson), ("message", .str d.message), ("path", textOrNull d.path),
    ("suggestion", textOrNull d.suggestion)]

def Level.names : List (String × Level) :=
  [Level.error, .warning, .info].map fun l => (l.name, l)

def Diagnostic.read : Json α → Except DecodeError Diagnostic :=
  Json.asRecord "Diagnostic" ["level", "message", "path", "suggestion"]
    ["level", "message", "path", "suggestion"] (none, none, none, none)
    (fun d name j => match name with
      | "level" => do .ok (some (← j.asName Level.names), d.2)
      | "message" => do .ok (d.1, some (← j.asString), d.2.2)
      | "path" => do .ok (d.1, d.2.1, ← j.asOption Json.asString, d.2.2.2)
      | "suggestion" => do .ok (d.1, d.2.1, d.2.2.1, ← j.asOption Json.asString)
      | _ => .ok d)
    (fun d => do .ok ⟨← Json.need "level" d.1, ← Json.need "message" d.2.1, d.2.2.1, d.2.2.2⟩)

def TempoSegment.toJson (s : TempoSegment α) : Json α :=
  .obj [("beat", Json.ofScalar s.beat), ("seconds", Json.ofScalar s.seconds),
    ("bpm", Json.ofScalar s.bpm)]

def TempoMap.toJson (m : TempoMap α) : Json α :=
  .obj [("segments", .arr (m.segments.map TempoSegment.toJson))]

def Change.toJson {β : Type} (name : String) (write : β → Json α) (c : Change α β) : Json α :=
  .obj [("seconds", Json.ofScalar c.seconds), (name, write c.value)]

def Route.toJson (r : Route) : Json α := .obj [("source", .str r.source), ("target", .str r.target)]

def PlacedDevice.toJson (d : PlacedDevice α) : Json α :=
  .obj [("node", textOrNull d.node), ("kind", .str d.kind.text), ("options", .obj d.options)]

def Repetition.toJson : Repetition α → Json α
  | .once => .obj [("type", .str "once")]
  | .endless period => .obj [("type", .str "infinite"), ("period", Json.ofScalar period)]
  | .finite span period =>
    .obj [("type", .str "finite"), ("span", Json.ofScalar span), ("period", Json.ofScalar period)]

def natOrNull : Option Nat → Json α := optionToJson fun n => .int n

def PlayedModulation.toJson (m : PlayedModulation α) : Json α :=
  .obj [("kind", .str m.kind.text), ("controller", natOrNull m.controller),
    ("value", Json.ofScalar m.value), ("time", Json.ofScalar m.time)]

def PlayedNote.toJson (n : PlayedNote α) : Json α :=
  .obj [("index", .int n.index), ("pitches", .arr (n.pitches.map PitchValue.toJson)),
    ("start", Json.ofScalar n.start), ("duration", Json.ofScalar n.duration),
    ("velocity", Json.ofScalar n.velocity), ("articulation", textOrNull n.articulation),
    ("microtuning", optionToJson Json.ofScalar n.microtuning),
    ("channel", natOrNull n.channel),
    ("modulations", .arr (n.modulations.map PlayedModulation.toJson))]

def PlayedPart.toJson (p : PlayedPart α) : Json α :=
  .obj [("label", .str p.label), ("instrument", p.instrument.toJson),
    ("effects", .arr (p.effects.map PlacedDevice.toJson)),
    ("notes", .arr (p.notes.map PlayedNote.toJson)), ("repeat", p.repetition.toJson),
    ("midiChannel", natOrNull p.midiChannel)]

def Curve.toJson : Curve → Json α
  | .step => .str "step"
  | .linear => .str "linear"

def PlayedAutomation.toJson (e : PlayedAutomation α) : Json α :=
  .obj [("node", textOrNull e.node), ("parameter", .str e.parameter),
    ("time", Json.ofScalar e.time), ("value", Json.ofScalar e.value), ("curve", e.curve.toJson)]

def PlayedRemark.toJson (r : PlayedRemark α) : Json α :=
  .obj [("text", .str r.text), ("time", Json.ofScalar r.time), ("kind", .str r.kind.name)]

def Performance.toJson (p : Performance α) : Json α :=
  .obj [("formatId", .str p.format), ("version", .str p.version), ("bpm", Json.ofScalar p.bpm),
    ("timeSignature", p.meter.toJson), ("keySignature", optionToJson Key.toJson p.key),
    ("tempoMap", p.tempo.toJson),
    ("meterChanges", .arr (p.meterChanges.map (Change.toJson "time_signature" Meter.toJson))),
    ("keyChanges", .arr (p.keyChanges.map (Change.toJson "key_signature" Key.toJson))),
    ("metadata", p.metadata.toJson), ("audioGraph", .arr (p.graph.map GraphNode.toJson)),
    ("routes", .arr (p.routes.map Route.toJson)),
    ("sequences", .arr (p.parts.map PlayedPart.toJson)),
    ("automation", .arr (p.automation.map PlayedAutomation.toJson)),
    ("annotations", .arr (p.remarks.map PlayedRemark.toJson)),
    ("diagnostics", .arr (p.diagnostics.map Diagnostic.toJson))]

end Partitura
