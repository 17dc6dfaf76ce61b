/-!
# Diagnostics

Once a score has been found valid nothing that follows can fail: whatever has to
be replaced or left out is reported beside the result. A report names the place
in the score it speaks of.
-/

namespace Partitura

inductive Level where
  /-- The value could not be produced at all. -/
  | error
  /-- A default or a substitute was used. -/
  | warning
  /-- The result is still faithful. -/
  | info
deriving DecidableEq, Repr

def Level.name : Level → String
  | .error => "error"
  | .warning => "warning"
  | .info => "info"

structure Diagnostic where
  level : Level
  message : String
  path : Option String
  suggestion : Option String
deriving DecidableEq, Repr

namespace Diagnostic

def warning (path message : String) : Diagnostic := ⟨.warning, message, some path, none⟩

def info (path message : String) : Diagnostic := ⟨.info, message, some path, none⟩

def general (message : String) : Diagnostic := ⟨.warning, message, none, none⟩

def display (d : Diagnostic) : String :=
  let placed := match d.path with
    | some path => path ++ ": " ++ d.message
    | none => d.message
  match d.suggestion with
  | some suggestion => placed ++ " (" ++ suggestion ++ ")"
  | none => placed

end Diagnostic

structure Outcome (β : Type) where
  value : β
  diagnostics : List Diagnostic

namespace Outcome

variable {β : Type}

def withLevel (o : Outcome β) (level : Level) : List Diagnostic :=
  o.diagnostics.filter fun d => d.level == level

def warnings (o : Outcome β) : List Diagnostic := o.withLevel .warning

def errors (o : Outcome β) : List Diagnostic := o.withLevel .error

def hasErrors (o : Outcome β) : Bool := !o.errors.isEmpty

def note (d : Diagnostic) : Outcome Unit := ⟨(), [d]⟩

def noteIf (condition : Bool) (d : Diagnostic) : Outcome Unit :=
  if condition then note d else ⟨(), []⟩

def collect (steps : List (Outcome β)) : Outcome (List β) :=
  ⟨steps.map value, steps.flatMap diagnostics⟩

def collectSome (steps : List (Outcome (Option β))) : Outcome (List β) :=
  ⟨steps.filterMap value, steps.flatMap diagnostics⟩

end Outcome

instance : Monad Outcome where
  pure v := ⟨v, []⟩
  bind o f := ⟨(f o.value).value, o.diagnostics ++ (f o.value).diagnostics⟩

end Partitura
