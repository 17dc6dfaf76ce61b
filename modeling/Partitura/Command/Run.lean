import Partitura.Command.Arguments
import Partitura.Json.Printer
import Partitura.Json.Reader
import Partitura.Score.Writer
import Partitura.Settings.Load

/-!
# Running the command

A command loads its settings, reads its input and then does its task. What it
finds around it is given: variables, files and the standard input. What it does
is a text to be printed, lines for the standard error, and files to be written
in order; the first file that cannot be written ends it.
-/

namespace Partitura

structure Surroundings where
  environment : String → Option String
  file : String → Except FileFault String
  standardInput : Except FileFault String

inductive CommandError where
  | settings (e : SettingsError)
  | unreadableInput (path : String) (fault : FileFault)
  | inputNotJson (path message : String)
  | conversion (e : ConversionError)
  | unwritable (path : String) (fault : FileFault)

def CommandError.messages : CommandError → List String
  | settings e => "loading configuration" :: e.message :: e.causes
  | unreadableInput path fault =>
    ["reading composition from " ++ (if path = "-" then "stdin" else path), fault.message]
  | inputNotJson path message => [path ++ " is not valid JSON", message]
  | conversion e => e.messages
  | unwritable path fault => ["writing " ++ path, fault.message]

structure Effect where
  outputs : List OutputFile
  printed : String
  warned : String
  succeeds : Bool

structure Ending where
  code : Nat
  printed : String
  warned : String
deriving DecidableEq, Repr

/-! ## Settings and input -/

def systemSettings : String := "/etc/tessitura/config.toml"

def localSettings : String := "tessitura.toml"

def pathInside (directory path : String) : String :=
  if Text.endsWith directory "/" then directory ++ path else directory ++ "/" ++ path

def userSettings? (environment : String → Option String) : Option String :=
  let directory := match environment "XDG_CONFIG_HOME" with
    | some d => if Text.startsWith d "/" then some d else none
    | none => none
  let home := (environment "HOME").filter fun d => !d.isEmpty
  (directory.or (home.map (pathInside · ".config"))).map (pathInside · "tessitura/config.toml")

/-- The files of settings in the order in which they are read, if they are there. -/
def settingsPaths (environment : String → Option String) (config : Option String) : List String :=
  systemSettings :: (userSettings? environment).toList ++ [config.getD localSettings]

def settingsFile? (around : Surroundings) (path : String) : Option SettingsFile :=
  match around.file path with
  | .error .missing => none
  | content => some ⟨path, content⟩

variable {α : Type} [Scalar α]

/-- The settings of a command. A file that it names has to be there. -/
def commandSettings (around : Surroundings) (config : Option String) :
    Except SettingsError (LoadedSettings α) :=
  match config.filter fun path => (settingsFile? around path).isNone with
  | some path => .error (.notFound path)
  | none =>
    loadSettings ((settingsPaths around.environment config).filterMap (settingsFile? around))
      around.environment

def readInput (path : String) (content : Except FileFault String) :
    Except CommandError (Json α) :=
  match content with
  | .error fault => .error (.unreadableInput path fault)
  | .ok text => (Json.parse text).mapError (.inputNotJson path)

/-- The content of an input; a minus sign stands for the standard input. -/
def inputContent (around : Surroundings) (path : String) : Except FileFault String :=
  if path = "-" then around.standardInput else around.file path

/-! ## Tasks -/

def settingsListing (loaded : LoadedSettings α) : String :=
  String.join (loaded.files.map ("# loaded " ++ · ++ "\n"))
    ++ String.join (loaded.overridden.map ("# override " ++ · ++ "\n")) ++ loaded.settings.text

def Conversion.effect (c : Conversion) : Effect where
  outputs := c.outputs
  printed := String.join (c.outputs.map fun o => "wrote " ++ o.path ++ "\n")
  warned := String.join (c.reports.map fun r => r.display ++ "\n")
  succeeds := true

def Task.effect (around : Surroundings) (loaded : LoadedSettings α) :
    Task → Except CommandError Effect
  | normalize input => do
    let value : Json α ← readInput input (inputContent around input)
    .ok ⟨[], (Partitura.normalize value).toJson.pretty ++ "\n", "", true⟩
  | validate input => do
    let value : Json α ← readInput input (inputContent around input)
    let report := (Partitura.normalize value).check
    .ok ⟨[], (report.toJson : Json α).pretty ++ "\n", "", report.success⟩
  | convert input targets => do
    let value : Json α ← readInput input (inputContent around input)
    let c ← (Partitura.convert targets loaded.settings.encoders value).mapError .conversion
    .ok c.effect
  | settings => .ok ⟨[], settingsListing loaded, "", true⟩

def Command.effect (α : Type) [Scalar α] (around : Surroundings) (c : Command) :
    Except CommandError Effect := do
  let loaded : LoadedSettings α ← (commandSettings around c.config).mapError .settings
  c.task.effect around loaded

/-! ## Endings -/

def causeText (number : Option Nat) (cause : String) : String :=
  let (first, later) := match number with
    | some n => ("    " ++ toString n ++ ": ", "       ")
    | none => ("    ", "    ")
  first ++ ("\n" ++ later).intercalate (Text.cutAt '\n' cause)

def causesText : List String → String
  | [] => ""
  | [cause] => "\n\nCaused by:\n" ++ causeText none cause
  | causes =>
    "\n\nCaused by:" ++ String.join (causes.zipIdx.map fun (cause, n) =>
      "\n" ++ causeText (some n) cause)

def CommandError.text (e : CommandError) : String :=
  match e.messages with
  | [] => "Error: \n"
  | message :: causes => "Error: " ++ message ++ causesText causes ++ "\n"

def CommandError.ending (e : CommandError) : Ending := ⟨1, "", e.text⟩

def Effect.ending (e : Effect) : Ending := ⟨if e.succeeds then 0 else 1, e.printed, e.warned⟩

def versionEnding : Ending := ⟨0, "tessitura 0.1.0\n", ""⟩

def usageEnding : Ending := ⟨2, "", ""⟩

def writeAll {m : Type → Type} [Monad m] (write : OutputFile → m (Option FileFault)) :
    List OutputFile → m (Option CommandError)
  | [] => pure none
  | o :: rest => do
    match ← write o with
    | none => writeAll write rest
    | some fault => pure (some (.unwritable o.path fault))

def Command.run {m : Type → Type} [Monad m] (α : Type) [Scalar α]
    (write : OutputFile → m (Option FileFault)) (around : Surroundings) (c : Command) :
    m Ending := do
  match c.effect α around with
  | .error e => pure e.ending
  | .ok effect =>
    match ← writeAll write effect.outputs with
    | none => pure effect.ending
    | some e => pure e.ending

end Partitura
