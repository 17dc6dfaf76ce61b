import Partitura.Device

/-!
# Controllers of device parameters

An automated parameter is played through the controller that a map gives it. An
entry of the map is a controller, which holds for every kind of device, or a
table for the kind that its key names, which comes first for that kind. Entries
stay in ascending order of their keys, so that of two keys that differ only in
case the lesser wins.
-/

namespace Partitura

abbrev Sorted (β : Type) := List (String × β)

namespace Sorted

variable {β : Type}

def insert (key : String) (value : β) : Sorted β → Sorted β
  | [] => [(key, value)]
  | (k, v) :: rest =>
    if key < k then (key, value) :: (k, v) :: rest
    else if key = k then (key, value) :: rest
    else (k, v) :: insert key value rest

def get? (key : String) (entries : Sorted β) : Option β :=
  (entries.find? fun e => e.1 == key).map Prod.snd

def ofList (entries : List (String × β)) : Sorted β :=
  entries.foldl (fun m e => insert e.1 e.2 m) []

/-- The entries of both; where both have a key, the second one's. -/
def union (base overlay : Sorted β) : Sorted β :=
  overlay.foldl (fun m e => insert e.1 e.2 m) base

end Sorted

inductive ControllerEntry where
  | controller (number : Nat)
  | table (entries : Sorted Nat)
deriving DecidableEq, Repr

structure ControllerMap where
  entries : Sorted ControllerEntry
deriving DecidableEq, Repr

namespace ControllerMap

def empty : ControllerMap := ⟨[]⟩

def set (m : ControllerMap) (parameter : String) (number : Nat) : ControllerMap :=
  ⟨Sorted.insert parameter (.controller number) m.entries⟩

def setFor (m : ControllerMap) (kind : DeviceKind) (parameter : String) (number : Nat) :
    ControllerMap :=
  let table := match Sorted.get? kind.text m.entries with
    | some (.table entries) => entries
    | _ => []
  ⟨Sorted.insert kind.text (.table (Sorted.insert parameter number table)) m.entries⟩

def standard : ControllerMap :=
  let shared := [("volume", 7), ("pan", 10), ("expression", 11), ("modulation", 1), ("cutoff", 74),
    ("frequency", 74), ("resonance", 71), ("q", 71), ("attack", 73), ("release", 72),
    ("reverb", 91), ("chorus", 93), ("detune", 94)]
  let m := shared.foldl (fun (m : ControllerMap) e => m.set e.1 e.2) empty
  let m := m.setFor .fmSynth "modulationIndex" 1
  let m := m.setFor .fmSynth "harmonicity" 75
  let m := m.setFor .amSynth "harmonicity" 75
  let m := m.setFor .duoSynth "vibratoAmount" 76
  m.setFor .duoSynth "vibratoRate" 77

def findNamed (name : String) (entries : Sorted Nat) : Option Nat :=
  (entries.find? fun e => Text.sameLetters e.1 name).map Prod.snd

def forKind? (kind : DeviceKind) (parameter : String) : String × ControllerEntry → Option Nat
  | (key, .table entries) =>
    if DeviceKind.parse key = kind then findNamed parameter entries else none
  | (_, .controller _) => none

def forAll? (parameter : String) : String × ControllerEntry → Option Nat
  | (key, .controller number) => if Text.sameLetters key parameter then some number else none
  | (_, .table _) => none

/-- The controller of a parameter of a device; of a dotted path the last part counts. -/
def lookup (m : ControllerMap) (kind : DeviceKind) (path : String) : Option Nat :=
  let parameter := Text.lastPiece '.' path
  match m.entries.findSome? (forKind? kind parameter) with
  | some number => some number
  | none => m.entries.findSome? (forAll? parameter)

/-- The entry at a key after another has been laid over it: two tables are joined. -/
def mergeEntry : Option ControllerEntry → ControllerEntry → ControllerEntry
  | some (.table base), .table overlay => .table (Sorted.union base overlay)
  | _, entry => entry

def merge (m other : ControllerMap) : ControllerMap :=
  ⟨other.entries.foldl
    (fun entries e => Sorted.insert e.1 (mergeEntry (Sorted.get? e.1 entries) e.2) entries)
    m.entries⟩

def isEmpty (m : ControllerMap) : Bool := m.entries.isEmpty

end ControllerMap

end Partitura
