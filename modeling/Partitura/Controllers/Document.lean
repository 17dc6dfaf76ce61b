import Partitura.Controllers
import Partitura.Json.Decode

/-!
# Controller maps in documents

A map is an object whose values are controllers or tables of controllers.
-/

namespace Partitura

variable {α : Type} [Scalar α]

open Json

def ControllerEntry.read : Json α → Except DecodeError ControllerEntry :=
  asOneOf "ControllerEntry"
    [fun j => .controller <$> j.asByte, fun j => .table <$> j.asTable asByte]

def ControllerMap.read (j : Json α) : Except DecodeError ControllerMap :=
  ControllerMap.mk <$> j.asTable ControllerEntry.read

def ControllerEntry.toJson : ControllerEntry → Json α
  | .controller n => .int n
  | .table entries => .obj (entries.map fun e => (e.1, .int e.2))

def ControllerMap.toJson (m : ControllerMap) : Json α :=
  .obj (m.entries.map fun e => (e.1, e.2.toJson))

end Partitura
