import Partitura.Controllers
import Partitura.Midi.File
import Partitura.Script.OfPerformance
import Partitura.Tune.OfPerformance

/-!
# Settings

Every setting has a usual value, so that no file of settings is needed. Settings
give the encoders what they write with. Environment variables override single
settings; a variable whose value does not fit is passed over.
-/

namespace Partitura

namespace Settings

structure LogSection where
  level : String
deriving DecidableEq, Repr, BEq

structure MidiSection where
  ticksPerBeat : Nat
  defaultPitch : Nat
deriving DecidableEq, Repr, BEq

structure TuneSection where
  reference : Nat
  barsPerLine : Nat
  source : String
deriving DecidableEq, Repr, BEq

structure ScriptSection (α : Type) where
  server : String
  grid : Option α
deriving BEq

def LogSection.standard : LogSection := ⟨"warn"⟩

def MidiSection.standard : MidiSection := ⟨480, Partitura.defaultPitch⟩

def TuneSection.standard : TuneSection := ⟨1, 4, "tessitura"⟩

def ScriptSection.standard {α : Type} : ScriptSection α := ⟨"s", none⟩

end Settings

structure Settings (α : Type) where
  log : Settings.LogSection
  midi : Settings.MidiSection
  tune : Settings.TuneSection
  script : Settings.ScriptSection α
  controllers : ControllerMap
deriving BEq

structure EncoderSettings (α : Type) where
  midi : Midi.Settings
  tune : TuneSettings
  script : Script.Settings α

namespace Settings

variable {α : Type}

def standard : Settings α :=
  ⟨.standard, .standard, .standard, .standard, .standard⟩

def maxTicks : Nat := 32767

def isTickCount (n : Nat) : Bool := decide (1 ≤ n ∧ n ≤ maxTicks)

/-- What the settings give the encoders. A source of blanks alone is none. -/
def encoders (s : Settings α) : EncoderSettings α where
  midi := ⟨max s.midi.ticksPerBeat 1, min s.midi.defaultPitch 127, s.controllers⟩
  tune :=
    let source := Text.trim s.tune.source
    ⟨s.tune.reference, s.tune.barsPerLine, if source.isEmpty then none else some source⟩
  script := ⟨s.script.server, s.script.grid⟩

/-! ## Overrides -/

structure Override (α : Type) where
  name : String
  apply : String → Settings α → Option (Settings α)

/-- The variables, a later one coming before an earlier one. -/
def overrides : List (Override α) :=
  [⟨"TESSITURA_LOG_LEVEL", fun v s => some { s with log := ⟨v⟩ }⟩,
   ⟨"RUST_LOG", fun v s => some { s with log := ⟨v⟩ }⟩,
   ⟨"TESSITURA_TICKS_PER_BEAT", fun v s => do
      let n ← Number.nat16? v
      if isTickCount n then some { s with midi := { s.midi with ticksPerBeat := n } } else none⟩,
   ⟨"TESSITURA_DEFAULT_PITCH", fun v s => do
      let n ← Number.byte? v
      if n ≤ 127 then some { s with midi := { s.midi with defaultPitch := n } } else none⟩,
   ⟨"TESSITURA_BARS_PER_LINE", fun v s => do
      let n ← Number.nat64? v
      some { s with tune := { s.tune with barsPerLine := n } }⟩,
   ⟨"TESSITURA_SC_SERVER", fun v s =>
      some { s with script := { s.script with server := v } }⟩]

/-- Settings after one variable, whose name is added to others if it did anything. -/
def applyOverride (environment : String → Option String) (state : Settings α × List String)
    (o : Override α) : Settings α × List String :=
  match (environment o.name).bind fun v => o.apply v state.1 with
  | some s => (s, state.2 ++ [o.name])
  | none => state

def override (environment : String → Option String) (s : Settings α) :
    Settings α × List String :=
  overrides.foldl (applyOverride environment) (s, [])

end Settings

end Partitura
