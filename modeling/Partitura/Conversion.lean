import Partitura.Settings.Basic

/-!
# Conversions

A conversion prepares its input once and encodes the performance for every
target that is asked for: a sequencer file, a tune and a script, in this order.
Whatever was reported on the way is kept with the stage that it comes from.
-/

namespace Partitura

/-- Where the encodings go; one without a place is not made. -/
structure Targets where
  midi : Option String
  tune : Option String
  script : Option String
deriving DecidableEq, Repr

def Targets.none : Targets := ⟨.none, .none, .none⟩

def Targets.isEmpty (t : Targets) : Bool :=
  t.midi.isNone && t.tune.isNone && t.script.isNone

inductive Stage where
  | resolve | midi | tune | script
deriving DecidableEq, Repr

def Stage.name : Stage → String
  | resolve => "resolve"
  | midi => "midi"
  | tune => "abc"
  | script => "sc"

structure StageReport where
  stage : Stage
  diagnostic : Diagnostic
deriving DecidableEq, Repr

def StageReport.display (r : StageReport) : String :=
  r.stage.name ++ ": " ++ r.diagnostic.level.name ++ ": " ++ r.diagnostic.display

inductive Content where
  | bytes (b : Midi.Bytes)
  | text (s : String)

structure OutputFile where
  path : String
  content : Content

structure Conversion where
  outputs : List OutputFile
  reports : List StageReport

inductive ConversionError where
  | nothingToDo
  | invalid (report : Report)

def ConversionError.messages : ConversionError → List String
  | nothingToDo => ["nothing to do: pass --midi, --abc or --sc"]
  | invalid report => ["cannot convert composition", invalidScore report]

def Conversion.ofOutcome {β : Type} (stage : Stage) (path : String) (content : β → Content)
    (o : Outcome β) : Conversion :=
  ⟨[⟨path, content o.value⟩], o.diagnostics.map (StageReport.mk stage)⟩

def Conversion.join (steps : List Conversion) : Conversion :=
  ⟨steps.flatMap outputs, steps.flatMap reports⟩

variable {α : Type} [Scalar α]

def encodeTargets (targets : Targets) (settings : EncoderSettings α) (p : Performance α) :
    Conversion :=
  let resolved : Conversion := ⟨[], p.diagnostics.map (StageReport.mk .resolve)⟩
  let midi := targets.midi.map fun path =>
    Conversion.ofOutcome .midi path .bytes (Midi.encode settings.midi p)
  let tune := targets.tune.map fun path =>
    Conversion.ofOutcome .tune path .text (tuneText settings.tune p)
  let script := targets.script.map fun path =>
    Conversion.ofOutcome .script path .text (scriptText settings.script p)
  Conversion.join (resolved :: midi.toList ++ tune.toList ++ script.toList)

def convert (targets : Targets) (settings : EncoderSettings α) (input : Json α) :
    Except ConversionError Conversion :=
  if targets.isEmpty then .error .nothingToDo
  else match prepare input with
    | .ok p => .ok (encodeTargets targets settings p)
    | .error report => .error (.invalid report)

end Partitura
