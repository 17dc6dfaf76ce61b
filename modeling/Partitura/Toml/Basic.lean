import Partitura.Controllers
import Partitura.Json.Basic
import Partitura.Toml.Moment

/-!
# TOML values

A document is a table. Tables keep their entries in ascending order of the keys.
Laying one table over another joins tables that meet at a key and otherwise
takes the value of the table above.
-/

namespace Partitura

inductive Toml (α : Type) where
  | bool (b : Bool)
  | integer (n : Int)
  | float (x : α)
  | string (s : String)
  | moment (m : Toml.Moment)
  | array (items : List (Toml α))
  | table (entries : List (String × Toml α))

namespace Toml

variable {α : Type}

instance : Inhabited (Toml α) := ⟨.table []⟩

mutual

def overlay : Option (Toml α) → Toml α → Toml α
  | some (.table base), .table above => .table (overlayTable base above)
  | _, v => v

def overlayTable (base : Sorted (Toml α)) : List (String × Toml α) → Sorted (Toml α)
  | [] => base
  | (key, v) :: rest =>
    overlayTable (Sorted.insert key (overlay (Sorted.get? key base) v) base) rest

end

mutual

def toJson : Toml α → Json α
  | .bool b => .bool b
  | .integer n => .int n
  | .float x => .real x
  | .string s => .str s
  | .moment m => .str m.text
  | .array items => .arr (itemsToJson items)
  | .table entries => .obj (entriesToJson entries)

def itemsToJson : List (Toml α) → List (Json α)
  | [] => []
  | v :: rest => v.toJson :: itemsToJson rest

def entriesToJson : List (String × Toml α) → List (String × Json α)
  | [] => []
  | (key, v) :: rest => (key, v.toJson) :: entriesToJson rest

end

end Toml

end Partitura
