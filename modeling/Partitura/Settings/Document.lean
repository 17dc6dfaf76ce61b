import Partitura.Controllers.Document
import Partitura.Settings.Basic
import Partitura.Toml.Reader

/-!
# Settings in documents

Settings are a table of sections. What is missing has its usual value and unknown
keys are skipped. A table of controllers takes the place of the usual one. The
text of settings names all of them; reading it gives the settings back.
-/

namespace Partitura.Settings

variable {α : Type} [Scalar α]

open Json

/-! ## Reading -/

def LogSection.read : Json α → Except DecodeError LogSection :=
  asRecord "LoggingConfig" ["level"] [] standard
    (fun d name j => match name with
      | "level" => do .ok { d with level := ← j.asString }
      | _ => .ok d)
    .ok

def MidiSection.read : Json α → Except DecodeError MidiSection :=
  asRecord "MidiConfig" ["ticks_per_beat", "default_pitch"] [] standard
    (fun d name j => match name with
      | "ticks_per_beat" => do .ok { d with ticksPerBeat := ← j.asNat16 }
      | "default_pitch" => do .ok { d with defaultPitch := ← j.asByte }
      | _ => .ok d)
    .ok

def TuneSection.read : Json α → Except DecodeError TuneSection :=
  asRecord "NotationConfig" ["reference", "bars_per_line", "source"] [] standard
    (fun d name j => match name with
      | "reference" => do .ok { d with reference := ← j.asNat32 }
      | "bars_per_line" => do .ok { d with barsPerLine := ← j.asNat64 }
      | "source" => do .ok { d with source := ← j.asString }
      | _ => .ok d)
    .ok

def ScriptSection.read : Json α → Except DecodeError (ScriptSection α) :=
  asRecord "ScriptConfig" ["server", "default_quant"] [] standard
    (fun d name j => match name with
      | "server" => do .ok { d with server := ← j.asString }
      | "default_quant" => do .ok { d with grid := ← j.asOption asScalar }
      | _ => .ok d)
    .ok

def read : Json α → Except DecodeError (Settings α) :=
  asRecord "TessConfig" ["logging", "midi", "notation", "script", "controllers"] [] standard
    (fun d name j => match name with
      | "logging" => do .ok { d with log := ← LogSection.read j }
      | "midi" => do .ok { d with midi := ← MidiSection.read j }
      | "notation" => do .ok { d with tune := ← TuneSection.read j }
      | "script" => do .ok { d with script := ← ScriptSection.read j }
      | "controllers" => do .ok { d with controllers := ← ControllerMap.read j }
      | _ => .ok d)
    .ok

def ofTable (table : Sorted (Toml α)) : Except DecodeError (Settings α) :=
  read (Toml.table table).toJson

/-- The keys that lead to the first value that cannot be read: a section, and a key in it
unless the section as a whole cannot be read. -/
def faultPath (table : Sorted (Toml α)) : List String :=
  let unreadable := fun (path : Sorted (Toml α)) => !(ofTable path).isOk
  match table.find? fun e => unreadable [e] with
  | none => []
  | some (key, .table entries) =>
    match entries.find? fun e => unreadable [(key, .table [e])] with
    | some e => [key, e.1]
    | none => [key]
  | some (key, _) => [key]

def tableFault (table : Sorted (Toml α)) (e : DecodeError) : String :=
  let path := faultPath table
  e.message ++ "\n" ++ if path.isEmpty then "" else "in `" ++ ".".intercalate path ++ "`\n"

/-! ## Writing -/

def toJson (s : Settings α) : Json α :=
  .obj [("logging", .obj [("level", .str s.log.level)]),
    ("midi", .obj [("ticks_per_beat", .int s.midi.ticksPerBeat),
      ("default_pitch", .int s.midi.defaultPitch)]),
    ("notation", .obj [("reference", .int s.tune.reference),
      ("bars_per_line", .int s.tune.barsPerLine), ("source", .str s.tune.source)]),
    ("script", .obj [("server", .str s.script.server),
      ("default_quant", match s.script.grid with
        | some x => ofScalar x
        | none => .null)]),
    ("controllers", s.controllers.toJson)]

def entryLine (key value : String) : String := key ++ " = " ++ value

def controllerLine? : String × ControllerEntry → Option String
  | (key, .controller n) => some (entryLine (Toml.keyText key) (toString n))
  | (_, .table _) => none

def controllerTable : String × ControllerEntry → List String
  | (_, .controller _) => []
  | (key, .table entries) =>
    ["", "[controllers." ++ Toml.keyText key ++ "]"]
      ++ entries.map fun e => entryLine (Toml.keyText e.1) (toString e.2)

def lines (s : Settings α) : List String :=
  ["# tessitura configuration", "",
    "[logging]", entryLine "level" (Toml.quoted s.log.level), "",
    "[midi]", entryLine "ticks_per_beat" (toString s.midi.ticksPerBeat),
    entryLine "default_pitch" (toString s.midi.defaultPitch), "",
    "[notation]", entryLine "reference" (toString s.tune.reference),
    entryLine "bars_per_line" (toString s.tune.barsPerLine),
    entryLine "source" (Toml.quoted s.tune.source), "",
    "[script]", entryLine "server" (Toml.quoted s.script.server)]
    ++ (s.script.grid.map fun x => entryLine "default_quant" (Scalar.settingText x)).toList
    ++ ["", "[controllers]"]
    ++ s.controllers.entries.filterMap controllerLine?
    ++ s.controllers.entries.flatMap controllerTable

def text (s : Settings α) : String := String.join (s.lines.map (· ++ "\n"))

end Partitura.Settings
