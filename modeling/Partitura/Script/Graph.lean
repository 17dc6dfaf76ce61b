import Partitura.Performance.OfScore
import Partitura.Script.Basic
import Partitura.Script.Names

/-!
# The graph of a script

Every node of the graph gets a name. Instruments, and nodes of unknown kinds, are
defined to be played by patterns. An effect reads a bus of its own and plays to
where the first good connection of it goes, or to the hardware. A modulator
writes a bus of its own, which drives a control of an effect at once and a
control of an instrument in every pattern that plays it.
-/

namespace Partitura.Script

structure NamedNode where
  id : String
  name : String
  role : DeviceRole
deriving DecidableEq, Repr

structure GraphPlan (α : Type) where
  nodes : List NamedNode
  definitions : List (Definition α)
  buses : List (Statement α)
  effects : List (Statement α)
  modulators : List (Statement α)
  destinations : List (String × Outlet)
  mappings : List (String × String × String)

/-- The node of an id; of several the last one. -/
def nodeNamed? (nodes : List NamedNode) (id : String) : Option NamedNode :=
  nodes.reverse.find? fun n => n.id == id

def isPlayed : DeviceRole → Bool
  | .instrument | .unknown => true
  | _ => false

def effectBus? (nodes : List NamedNode) (id : String) : Option Outlet :=
  match nodeNamed? nodes id with
  | some n => if n.role = .effect then some (.bus n.name) else none
  | none => none

def destinationIn (destinations : List (String × Outlet)) (id : String) : Outlet :=
  ((destinations.find? fun d => d.1 == id).map Prod.snd).getD .hardware

namespace GraphPlan

variable {α : Type}

def role? (g : GraphPlan α) (id : String) : Option DeviceRole :=
  (nodeNamed? g.nodes id).map NamedNode.role

def name? (g : GraphPlan α) (id : String) : Option String :=
  (nodeNamed? g.nodes id).map NamedNode.name

def instrument? (g : GraphPlan α) (id : String) : Option String :=
  match nodeNamed? g.nodes id with
  | some n => if isPlayed n.role then some n.name else none
  | none => none

def destination (g : GraphPlan α) (id : String) : Outlet := destinationIn g.destinations id

def mappingsOf (g : GraphPlan α) (id : String) : List (String × String) :=
  (g.mappings.filter fun m => m.1 == id).map Prod.snd

end GraphPlan

variable {α : Type} [Scalar α]

/-- The definition of a device that is played; a sine stands for an unknown kind. -/
def playedTemplate (path what : String) (kind : DeviceKind) (options : Options α) :
    Outcome (Template α) :=
  match instrumentTemplate? kind options with
  | some t => pure t
  | none => do
    Outcome.note (.warning path ("unknown " ++ what ++ " '" ++ kind.text
      ++ "', using a generic sine voice"))
    pure (genericTemplate options)

def nodeDefinition (i : Nat) (name : String) (n : GraphNode α) :
    Outcome (Option (Definition α)) :=
  match n.kind.role with
  | .instrument | .unknown => do
    let t ← playedTemplate (entryPath "audioGraph" i) "node type" n.kind n.options
    pure (some ⟨name, .instrument, t⟩)
  | .effect =>
    pure ((effectTemplate? n.kind n.options).map fun t => ⟨effectSymbol name, .effect, t⟩)
  | .modulator =>
    pure (some ⟨modulatorSymbol name, .modulator, modulatorTemplate n.options⟩)
  | .sink => pure none

/-! ## Routes -/

inductive RouteFault where
  | unknownNode (id : String)
  | noOutput (source : String)
  | noInput (target : String)
  | routed (source : String)
deriving DecidableEq, Repr

def RouteFault.message : RouteFault → String
  | unknownNode id => "connection names unknown node '" ++ id ++ "', skipped"
  | noOutput source => "'" ++ source ++ "' has no audio output to route, skipped"
  | noInput target => "cannot route audio into '" ++ target ++ "', skipped"
  | routed source =>
    "'" ++ source ++ "' is already routed, only its first connection is used"

def isEndpoint (nodes : List NamedNode) (id : String) : Bool :=
  id == masterId || nodes.any fun n => n.id == id

def hasOutput (nodes : List NamedNode) (id : String) : Bool :=
  match nodeNamed? nodes id with
  | some n => isPlayed n.role || n.role == .effect
  | none => false

def inputOf? (nodes : List NamedNode) (id : String) : Option Outlet :=
  if id = masterId then some .hardware
  else match nodeNamed? nodes id with
    | some n =>
      match n.role with
      | .sink => some .hardware
      | .effect => some (.bus n.name)
      | _ => none
    | none => none

/-- The outlet that a connection gives its source, the earlier ones being given. -/
def routeOutlet (nodes : List NamedNode) (routed : List (String × Outlet)) (r : Route) :
    Except RouteFault Outlet :=
  match [r.source, r.target].find? fun id => !isEndpoint nodes id with
  | some id => .error (.unknownNode id)
  | none =>
    if hasOutput nodes r.source then
      match inputOf? nodes r.target with
      | some outlet =>
        if routed.any fun d => d.1 == r.source then .error (.routed r.source) else .ok outlet
      | none => .error (.noInput r.target)
    else .error (.noOutput r.source)

def routeNodes (nodes : List NamedNode) :
    List (String × Outlet) → List (Route × Nat) → Outcome (List (String × Outlet))
  | routed, [] => pure routed
  | routed, (r, i) :: rest =>
    match routeOutlet nodes routed r with
    | .ok outlet => routeNodes nodes (routed ++ [(r.source, outlet)]) rest
    | .error fault => do
      Outcome.note (.warning (entryPath "connections" i) fault.message)
      routeNodes nodes routed rest

def effectSynth? (nodes : List NamedNode) (id : String) (outlet : Outlet) :
    Option (Statement α) :=
  match nodeNamed? nodes id with
  | some n => if n.role = .effect then some (.effect n.name outlet) else none
  | none => none

/-- The synths of all effects: the routed ones in the order of their connections,
then the others, which play to the hardware. -/
def effectSynths (nodes : List NamedNode) (routed : List (String × Outlet)) :
    List (Statement α) :=
  routed.filterMap (fun d => effectSynth? nodes d.1 d.2)
    ++ (nodes.filter fun n => !routed.any fun d => d.1 == n.id).filterMap fun n =>
      effectSynth? nodes n.id .hardware

/-! ## Modulators -/

inductive Drive where
  | effect (name control : String)
  | instrument (id control : String)
deriving DecidableEq, Repr

def driveOf (nodes : List NamedNode) (id : String) (target : Option String) :
    Except String Drive :=
  match target.bind (Text.splitFirst '.') with
  | none => .error ("modulator '" ++ id ++ "' needs a '<node>.<parameter>' target")
  | some (node, path) =>
    let control := identifier (Text.lastPiece '.' path)
    match nodeNamed? nodes node with
    | some n =>
      if n.role = .effect then .ok (.effect n.name control)
      else if isPlayed n.role then .ok (.instrument node control)
      else .error ("modulator '" ++ id ++ "' targets unknown node '" ++ node ++ "'")
    | none => .error ("modulator '" ++ id ++ "' targets unknown node '" ++ node ++ "'")

def drives (nodes : List NamedNode) (graph : List (GraphNode α)) :
    Outcome (List (String × Drive)) :=
  Outcome.collectSome (((nodes.zip graph).zipIdx.filter fun e => e.1.2.kind == .lfo).map
    fun ((named, n), i) =>
      match driveOf nodes n.id n.target with
      | .ok drive => pure (some (named.name, drive))
      | .error message => do
        Outcome.note (.warning (entryPath "audioGraph" i ++ ".target") message)
        pure none)

def modulatorStatements (n : NamedNode) : List (Statement α) :=
  if n.role = .modulator then [.controlBus n.name, .modulator n.name] else []

def mapStatement? : String × Drive → Option (Statement α)
  | (modulator, .effect name control) => some (.map name control modulator)
  | (_, .instrument _ _) => none

def mapping? : String × Drive → Option (String × String × String)
  | (modulator, .instrument id control) => some (id, control, modulator)
  | (_, .effect _ _) => none

def planGraph (names : Names) (p : Performance α) : Outcome (GraphPlan α × Names) := do
  let (nodeNames, names) := names.getAll (p.graph.map GraphNode.id)
  let nodes := List.zipWith (fun (n : GraphNode α) name => NamedNode.mk n.id name n.kind.role)
    p.graph nodeNames
  let definitions ← Outcome.collectSome ((p.graph.zip nodeNames).zipIdx.map fun ((n, name), i) =>
    nodeDefinition i name n)
  let destinations ← routeNodes nodes [] p.routes.zipIdx
  let driven ← drives nodes p.graph
  pure (⟨nodes, definitions,
    (nodes.filter fun n => n.role == .effect).map fun n => .audioBus n.name,
    effectSynths nodes destinations,
    nodes.flatMap modulatorStatements ++ driven.filterMap mapStatement?,
    destinations, driven.filterMap mapping?⟩, names)

end Partitura.Script
