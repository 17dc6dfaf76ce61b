import Partitura.Script.Graph
import Partitura.Script.Steps

/-!
# The parts of a script

A part is played by the instrument of its node, or by a definition of its own.
Its sound runs through its effects in order: each one that is no node gets a bus
and a synth of its own and plays into the next one. The first effect that is a
node ends the chain, and what follows it cannot be reached. A chain that ends by
itself plays to where the instrument's node goes.
-/

namespace Partitura.Script

structure PartPlan (α : Type) where
  node : Option String
  label : String
  definitions : List (Definition α)
  buses : List (Statement α)
  effects : List (Statement α)
  name : String
  pattern : Option (Pattern α)

/-- A chain of effects: those that are no nodes, with their places in the list, the
names of those that no template fits, and the node at the end. -/
structure Chain (α : Type) where
  links : List (Nat × Template α)
  skipped : List String
  outlet : Option Outlet

variable {α : Type} [Scalar α]

def chainOf (graph : GraphPlan α) (path : String) :
    List (PlacedDevice α × Nat) → Outcome (Chain α)
  | [] => pure ⟨[], [], none⟩
  | (device, j) :: rest =>
    let path' := path ++ "." ++ entryPath "effects" j
    match device.node.bind (effectBus? graph.nodes) with
    | some outlet => do
      Outcome.noteIf (!rest.isEmpty)
        (.warning path' "effects after a graph effect are not reachable, dropped")
      pure ⟨[], [], some outlet⟩
    | none =>
      match effectTemplate? device.kind device.options with
      | some template => do
        let chain ← chainOf graph path rest
        pure { chain with links := (j, template) :: chain.links }
      | none => do
        Outcome.note (.warning path' ("unsupported effect '" ++ device.kind.text
          ++ "', left out of the chain"))
        let chain ← chainOf graph path rest
        pure { chain with skipped := device.kind.text :: chain.skipped }

/-- The synths of a chain: each one plays into the next, the last one to an outlet. -/
def wire (outlet : Outlet) : List String → List (Statement α)
  | [] => []
  | [name] => [.effect name outlet]
  | name :: next :: rest => .effect name (.bus next) :: wire outlet (next :: rest)

def chainInlet (outlet : Outlet) : List String → Outlet
  | [] => outlet
  | name :: _ => .bus name

def partInstrument (graph : GraphPlan α) (names : Names) (path name : String)
    (device : PlacedDevice α) : Outcome (String × List (Definition α) × Names) :=
  match device.node.bind graph.instrument? with
  | some symbol => pure (symbol, [], names)
  | none => do
    let template ← playedTemplate (path ++ ".synth") "synth type" device.kind device.options
    let (symbol, names) := names.fresh (name ++ "_synth")
    pure (symbol, [⟨symbol, .instrument, template⟩], names)

def instrumentOutlet (graph : GraphPlan α) (device : PlacedDevice α) : Outlet :=
  match device.node with
  | some id => graph.destination id
  | none => .hardware

def effectName (symbol : String) : String :=
  String.ofList (symbol.toList.drop (effectSymbol "").length)

def skippedComment (kind : String) : Statement α :=
  .comment ("effect '" ++ kind ++ "' is not supported and was skipped")

def planPart (p : Performance α) (graph : GraphPlan α) (names : Names) (i : Nat) (name : String)
    (part : PlayedPart α) : Outcome (PartPlan α × Names) := do
  let path := entryPath "sequences" i
  let (symbol, definitions, names) ← partInstrument graph names path name part.instrument
  let chain ← chainOf graph path part.effects.zipIdx
  let (symbols, names) := names.freshAll
    (chain.links.map fun l => effectSymbol (name ++ "_" ++ toString l.1))
  let links := symbols.map effectName
  let outlet := chain.outlet.getD (instrumentOutlet graph part.instrument)
  let steps ← steps p.tempo path part
  let pattern := if steps.isEmpty then none
    else some ⟨name, symbol, chainInlet outlet links,
      (part.instrument.node.map graph.mappingsOf).getD [],
      rowsFrom (periodBeats p.tempo part) 0 steps, part.repetition.count?⟩
  pure (⟨part.instrument.node, part.label,
    definitions ++ List.zipWith (fun symbol l => ⟨symbol, .effect, l.2⟩) symbols chain.links,
    links.map .audioBus, chain.skipped.map skippedComment ++ wire outlet links, name, pattern⟩,
    names)

def planParts (p : Performance α) (graph : GraphPlan α) :
    Names → Nat → List (PlayedPart α × String) → Outcome (List (PartPlan α))
  | _, _, [] => pure []
  | names, i, (part, name) :: rest => do
    let (plan, names) ← planPart p graph names i name part
    let later ← planParts p graph names (i + 1) rest
    pure (plan :: later)

def PartPlan.statements (plan : PartPlan α) : List (Statement α) :=
  match plan.pattern with
  | some pattern => [.group plan.name, .pattern pattern]
  | none => [.comment ("sequence '" ++ plan.label ++ "' has no playable notes")]

end Partitura.Script
