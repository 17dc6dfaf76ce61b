import Partitura.Json.Decode
import Partitura.Script.OfPerformance

/-!
# Settings of scripts in documents
-/

namespace Partitura.Script

variable {α : Type} [Scalar α]

open Json

def Settings.read : Json α → Except DecodeError (Settings α) :=
  asRecord "ScriptParams" ["server", "default_quant"] [] standard
    (fun d name j => match name with
      | "server" => do .ok { d with server := ← j.asString }
      | "default_quant" => do .ok { d with grid := ← j.asOption asScalar }
      | _ => .ok d)
    .ok

def Settings.toJson (s : Settings α) : Json α :=
  .obj [("server", .str s.server),
    ("default_quant", match s.grid with
      | some x => ofScalar x
      | none => .null)]

end Partitura.Script
