import Partitura.Conversion

/-!
# Arguments of the command

The command has four tasks, each with arguments of its own. The file of settings
may be named before or after the task. An option takes its value from the same
argument after an equals sign or from the next one; a single minus sign is a
value like any other, and after two alone nothing is an option.
-/

namespace Partitura

inductive Task where
  | normalize (input : String)
  | validate (input : String)
  | convert (input : String) (targets : Targets)
  | settings
deriving DecidableEq, Repr

structure Command where
  config : Option String
  task : Task
deriving DecidableEq, Repr

inductive Request where
  | version
  | run (command : Command)
deriving DecidableEq, Repr

namespace Request

structure Collected where
  inputs : List String
  options : List (String × String)
deriving DecidableEq, Repr

def Collected.none : Collected := ⟨[], []⟩

def isOption (s : String) : Bool := Text.startsWith s "-" && s != "-"

/-- Adds an option, which may be given once and not without a value. -/
def Collected.option (c : Collected) (name value : String) : Option Collected :=
  if value.isEmpty || c.options.any fun o => o.1 == name then .none
  else some { c with options := c.options ++ [(name, value)] }

def Collected.input (c : Collected) (s : String) : Option Collected :=
  if s.isEmpty then .none else some { c with inputs := c.inputs ++ [s] }

def splitOption (s : String) : String × Option String :=
  match Text.splitFirst '=' s with
  | some (name, value) => (name, some value)
  | none => (s, .none)

def collect (known : List String) : Collected → List String → Option Collected
  | c, [] => some c
  | c, "--" :: rest => rest.foldlM Collected.input c
  | c, s :: rest =>
    if isOption s then
      let (name, value) := splitOption s
      if known.contains name then
        match value, rest with
        | some value, rest => do collect known (← c.option name value) rest
        | none, value :: rest =>
          if isOption value then .none else do collect known (← c.option name value) rest
        | none, [] => .none
      else .none
    else do collect known (← c.input s) rest

def Collected.value? (c : Collected) (name : String) : Option String :=
  (c.options.find? fun o => o.1 == name).map Prod.snd

def optionsOf (task : String) : List String :=
  if task = "convert" then ["--config", "--midi", "--abc", "--sc"] else ["--config"]

def taskOf? (name : String) (c : Collected) : Option Task :=
  match name, c.inputs with
  | "normalize", [input] => some (.normalize input)
  | "validate", [input] => some (.validate input)
  | "convert", [input] =>
    some (.convert input ⟨c.value? "--midi", c.value? "--abc", c.value? "--sc"⟩)
  | "config", [] => some .settings
  | _, _ => .none

def commandOf? (config : Option String) : List String → Option Command
  | [] => .none
  | name :: rest => do
    let c ← collect (optionsOf name) .none rest
    let task ← taskOf? name c
    some ⟨(c.value? "--config").or config, task⟩

def parseFrom? (config : Option String) : List String → Option Request
  | [] => .none
  | s :: rest =>
    if s = "--version" ∨ s = "-V" then some .version
    else if isOption s then
      match splitOption s, rest with
      | ("--config", some value), rest =>
        if config.isSome || value.isEmpty then .none else parseFrom? (some value) rest
      | ("--config", none), value :: rest =>
        if config.isSome || value.isEmpty || isOption value then .none
        else parseFrom? (some value) rest
      | _, _ => .none
    else (commandOf? config (s :: rest)).map .run

def parse? : List String → Option Request := parseFrom? .none

end Request

end Partitura
