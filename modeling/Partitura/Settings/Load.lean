import Partitura.Files
import Partitura.Settings.Document

/-!
# Loading settings

Files of settings are read in order, each one on its own first, and a later one
is laid over the earlier ones. The controllers that they set are added to the
usual ones. Then the environment overrides what it may.
-/

namespace Partitura

structure SettingsFile where
  name : String
  content : Except FileFault String

inductive SettingsError where
  | notFound (file : String)
  | unreadable (file : String) (fault : FileFault)
  | unparsed (file message : String)
  | ticksOutOfRange (file : String) (ticks : Nat)
deriving DecidableEq, Repr

def SettingsError.message : SettingsError → String
  | notFound file => "Config file " ++ file ++ " does not exist"
  | unreadable file fault => "Failed to read config file " ++ file ++ ": " ++ fault.message
  | unparsed file message => "Failed to parse config file " ++ file ++ ": " ++ message
  | ticksOutOfRange file ticks =>
    "Invalid value in config file " ++ file ++ ": midi.ticks_per_beat = " ++ toString ticks
      ++ " is outside 1..=" ++ toString Settings.maxTicks

def SettingsError.causes : SettingsError → List String
  | unreadable _ fault => [fault.message]
  | _ => []

structure LoadedSettings (α : Type) where
  settings : Settings α
  files : List String
  overridden : List String

variable {α : Type} [Scalar α]

/-- The table of a file that can be read as settings on its own. -/
def SettingsFile.table (f : SettingsFile) : Except SettingsError (Sorted (Toml α)) :=
  match f.content with
  | .error fault => .error (.unreadable f.name fault)
  | .ok text =>
    match (Toml.parse text : Except Toml.Fault (Sorted (Toml α))) with
    | .error fault => .error (.unparsed f.name fault.message)
    | .ok table =>
      match Settings.ofTable table with
      | .error e => .error (.unparsed f.name (Settings.tableFault table e))
      | .ok _ => .ok table

def mergedTable (files : List SettingsFile) : Except SettingsError (Sorted (Toml α)) :=
  files.foldlM (fun base f => do .ok (Toml.overlayTable base (← f.table))) []

def settingsOfTable (origin : String) (table : Sorted (Toml α)) :
    Except SettingsError (Settings α) :=
  match Settings.ofTable table with
  | .error e => .error (.unparsed origin (Settings.tableFault table e))
  | .ok s =>
    if Settings.isTickCount s.midi.ticksPerBeat then
      .ok { s with controllers := ControllerMap.standard.merge s.controllers }
    else .error (.ticksOutOfRange origin s.midi.ticksPerBeat)

def loadSettings (files : List SettingsFile) (environment : String → Option String) :
    Except SettingsError (LoadedSettings α) := do
  let names := files.map SettingsFile.name
  let s ← settingsOfTable (names.getLast?.getD "<defaults>") (← mergedTable files)
  let (s, overridden) := s.override environment
  .ok ⟨s, names, overridden⟩

end Partitura
