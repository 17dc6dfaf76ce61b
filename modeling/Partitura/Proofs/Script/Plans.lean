import Partitura.Proofs.Outcome
import Partitura.Proofs.Script.Names
import Partitura.Script.OfPerformance

/-!
# What the graph and the parts contribute

Every node has a symbol by its role, and the definitions of the graph are those of its
nodes. Sounds only ever go to the hardware or to the bus of an effect. A part has a chain of
links, which are effects of its own: each has a symbol and a bus, and plays into the next
one. All symbols of parts are handed out as new names.
-/

namespace Partitura.Script

variable {α : Type}

/-! ## Nodes -/

def NamedNode.symbol? (n : NamedNode) : Option String :=
  match n.role with
  | .instrument | .unknown => some n.name
  | .effect => some (effectSymbol n.name)
  | .modulator => some (modulatorSymbol n.name)
  | .sink => none

theorem symbol?_of_isPlayed {n : NamedNode} (h : isPlayed n.role) : n.symbol? = some n.name := by
  unfold NamedNode.symbol?
  cases hrole : n.role <;> first | rfl | simp [isPlayed, hrole] at h

theorem symbol?_cases {n : NamedNode} {symbol : String} (h : n.symbol? = some symbol) :
    (isPlayed n.role ∧ symbol = n.name) ∨ (n.role = .effect ∧ symbol = effectSymbol n.name) ∨
      (n.role = .modulator ∧ symbol = modulatorSymbol n.name) := by
  unfold NamedNode.symbol? at h
  cases hrole : n.role <;> simp only [hrole, Option.some.injEq, reduceCtorEq] at h <;>
    simp [isPlayed, ← h]

def HasNode (nodes : List NamedNode) (role : DeviceRole) (name : String) : Prop :=
  ∃ n ∈ nodes, n.role = role ∧ n.name = name

/-- A sound gets through an outlet to the hardware or to an effect. -/
def Outlet.Reaches (nodes : List NamedNode) : Outlet → Prop
  | hardware => True
  | bus name => HasNode nodes .effect name

theorem mem_of_nodeNamed? {nodes : List NamedNode} {id : String} {n : NamedNode}
    (h : nodeNamed? nodes id = some n) : n ∈ nodes ∧ n.id = id := by
  have hmem := List.mem_of_find?_eq_some h
  have hid := List.find?_some h
  exact ⟨List.mem_reverse.mp hmem, beq_iff_eq.mp hid⟩

def nameNodes (graph : List (GraphNode α)) (names : List String) : List NamedNode :=
  List.zipWith (fun (n : GraphNode α) name => NamedNode.mk n.id name n.kind.role) graph names

theorem role_of_mem_zip {graph : List (GraphNode α)} {names : List String} {named : NamedNode}
    {n : GraphNode α} (h : (named, n) ∈ (nameNodes graph names).zip graph) :
    named ∈ nameNodes graph names ∧ named.role = n.kind.role := by
  refine ⟨(List.of_mem_zip h).1, ?_⟩
  induction graph generalizing names with
  | nil => cases names <;> simp [nameNodes] at h
  | cons first rest ih =>
    cases names with
    | nil => simp [nameNodes] at h
    | cons name names =>
      rcases List.mem_cons.mp h with heq | h
      · cases heq
        rfl
      · exact ih h

/-! ## Routes and drives -/

theorem reaches_inputOf? {nodes : List NamedNode} {id : String} {outlet : Outlet}
    (h : inputOf? nodes id = some outlet) : outlet.Reaches nodes := by
  unfold inputOf? at h
  split at h
  · cases h
    trivial
  · split at h
    · next n hn =>
      split at h
      · cases h
        trivial
      · next hrole =>
        cases h
        exact ⟨n, (mem_of_nodeNamed? hn).1, hrole, rfl⟩
      · cases h
    · cases h

theorem reaches_routeOutlet {nodes : List NamedNode} {routed : List (String × Outlet)}
    {r : Route} {outlet : Outlet} (h : routeOutlet nodes routed r = .ok outlet) :
    outlet.Reaches nodes := by
  unfold routeOutlet at h
  split at h
  · cases h
  · split at h
    · split at h
      · next found hfound =>
        split at h
        · cases h
        · cases h
          exact reaches_inputOf? hfound
      · cases h
    · cases h

theorem reaches_routeNodes {nodes : List NamedNode} {routed : List (String × Outlet)}
    {routes : List (Route × Nat)} (h : ∀ d ∈ routed, d.2.Reaches nodes) :
    ∀ d ∈ (routeNodes nodes routed routes).value, d.2.Reaches nodes := by
  induction routes generalizing routed with
  | nil => exact h
  | cons first rest ih =>
    obtain ⟨r, i⟩ := first
    simp only [routeNodes]
    split
    · next outlet hroute =>
      refine ih fun d hd => ?_
      rcases List.mem_append.mp hd with hd | hd
      · exact h d hd
      · rw [List.mem_singleton.mp hd]
        exact reaches_routeOutlet hroute
    · exact ih h

def effectName? (nodes : List NamedNode) (id : String) : Option String :=
  match nodeNamed? nodes id with
  | some n => if n.role = .effect then some n.name else none
  | none => none

theorem effectName?_eq_some {nodes : List NamedNode} {id name : String}
    (h : effectName? nodes id = some name) :
    ∃ n ∈ nodes, n.id = id ∧ n.role = .effect ∧ n.name = name := by
  unfold effectName? at h
  split at h
  · next n hn =>
    obtain ⟨hmem, hid⟩ := mem_of_nodeNamed? hn
    split at h
    · next hrole =>
      cases h
      exact ⟨n, hmem, hid, hrole, rfl⟩
    · cases h
  · cases h

theorem effectSynth?_eq (nodes : List NamedNode) (id : String) (outlet : Outlet) :
    effectSynth? (α := α) nodes id outlet =
      (effectName? nodes id).map fun name => .effect name outlet := by
  unfold effectSynth? effectName?
  cases nodeNamed? nodes id with
  | none => rfl
  | some n => by_cases hrole : n.role = .effect <;> simp [hrole]

theorem effectSynth?_eq_some {nodes : List NamedNode} {id : String} {outlet : Outlet}
    {st : Statement α} (h : effectSynth? nodes id outlet = some st) :
    ∃ name, HasNode nodes .effect name ∧ st = .effect name outlet := by
  rw [effectSynth?_eq] at h
  obtain ⟨name, hname, rfl⟩ := Option.map_eq_some_iff.mp h
  obtain ⟨n, hn, -, hrole, rfl⟩ := effectName?_eq_some hname
  exact ⟨n.name, ⟨n, hn, hrole, rfl⟩, rfl⟩

theorem effectSynth?_of_effect {nodes : List NamedNode} {id : String} {n : NamedNode}
    (outlet : Outlet) (hn : nodeNamed? nodes id = some n) (hrole : n.role = .effect) :
    effectSynth? (α := α) nodes id outlet = some (.effect n.name outlet) := by
  simp [effectSynth?, hn, hrole]

theorem mem_effectSynths {nodes : List NamedNode} {routed : List (String × Outlet)}
    {st : Statement α} (hrouted : ∀ d ∈ routed, d.2.Reaches nodes)
    (h : st ∈ effectSynths nodes routed) :
    ∃ name outlet, HasNode nodes .effect name ∧ outlet.Reaches nodes ∧
      st = .effect name outlet := by
  rcases List.mem_append.mp h with h | h
  · obtain ⟨d, hd, hst⟩ := List.mem_filterMap.mp h
    obtain ⟨name, hname, rfl⟩ := effectSynth?_eq_some hst
    exact ⟨name, d.2, hname, hrouted d hd, rfl⟩
  · obtain ⟨n, -, hst⟩ := List.mem_filterMap.mp h
    obtain ⟨name, hname, rfl⟩ := effectSynth?_eq_some hst
    exact ⟨name, .hardware, hname, trivial, rfl⟩

theorem exists_effectSynth {nodes : List NamedNode} (routed : List (String × Outlet))
    {id : String} {n : NamedNode} (hn : nodeNamed? nodes id = some n) (hrole : n.role = .effect) :
    ∃ outlet, .effect n.name outlet ∈ effectSynths (α := α) nodes routed := by
  obtain ⟨hmem, hid⟩ := mem_of_nodeNamed? hn
  by_cases hrouted : routed.any fun d => d.1 == id
  · obtain ⟨d, hd, hsource⟩ := List.any_eq_true.mp hrouted
    have hsynth := effectSynth?_of_effect (α := α) d.2 hn hrole
    rw [← beq_iff_eq.mp hsource] at hsynth
    exact ⟨d.2, List.mem_append_left _ (List.mem_filterMap.mpr ⟨d, hd, hsynth⟩)⟩
  · have hsynth := effectSynth?_of_effect (α := α) .hardware hn hrole
    rw [← hid] at hsynth hrouted
    have hleft : n ∈ nodes.filter fun n => !routed.any fun d => d.1 == n.id :=
      List.mem_filter.mpr
        ⟨hmem, by simp only [Bool.eq_false_iff.mpr hrouted, Bool.not_false]⟩
    exact ⟨.hardware, List.mem_append_right _ (List.mem_filterMap.mpr ⟨n, hleft, hsynth⟩)⟩

theorem driveOf_effect {nodes : List NamedNode} {id name control : String}
    {target : Option String} (h : driveOf nodes id target = .ok (.effect name control)) :
    ∃ id' n, nodeNamed? nodes id' = some n ∧ n.role = .effect ∧ n.name = name := by
  unfold driveOf at h
  split at h
  · cases h
  · next node path _ =>
    dsimp only at h
    split at h
    · next n hn =>
      split at h
      · next hrole =>
        cases h
        exact ⟨node, n, hn, hrole, rfl⟩
      · split at h <;> cases h
    · cases h

theorem mem_drives {graph : List (GraphNode α)} {names : List String} {d : String × Drive}
    (h : d ∈ (drives (nameNodes graph names) graph).value) :
    HasNode (nameNodes graph names) .modulator d.1 ∧
      ∃ id target, driveOf (nameNodes graph names) id target = .ok d.2 := by
  simp only [drives, Outcome.value_collectSome, List.filterMap_map] at h
  obtain ⟨⟨⟨named, n⟩, i⟩, he, hd⟩ := List.mem_filterMap.mp h
  obtain ⟨hmem, hlfo⟩ := List.mem_filter.mp he
  obtain ⟨hnamed, hrole⟩ := role_of_mem_zip (List.fst_mem_of_mem_zipIdx hmem)
  have hkind : n.kind = .lfo := beq_iff_eq.mp hlfo
  simp only [Function.comp_apply] at hd
  split at hd
  · next drive hdrive =>
    cases hd
    exact ⟨⟨named, hnamed, by rw [hrole, hkind]; rfl, rfl⟩, n.id, n.target, hdrive⟩
  · cases hd

/-! ## Soundness -/

/-- What the graph contributes refers to nodes of the graph only. -/
structure GraphPlan.Sound (g : GraphPlan α) : Prop where
  definitions : g.definitions.map Definition.name = g.nodes.filterMap NamedNode.symbol?
  buses : g.buses = (g.nodes.filter fun n => n.role == .effect).map fun n => .audioBus n.name
  effects : g.effects = effectSynths g.nodes g.destinations
  modulators : ∃ maps, g.modulators = g.nodes.flatMap modulatorStatements ++ maps ∧
    ∀ st ∈ maps, ∃ id n control source, nodeNamed? g.nodes id = some n ∧ n.role = .effect ∧
      HasNode g.nodes .modulator source ∧ st = .map n.name control source
  destinations : ∀ d ∈ g.destinations, d.2.Reaches g.nodes
  mappings : ∀ m ∈ g.mappings, HasNode g.nodes .modulator m.2.2

theorem reaches_destination {graph : GraphPlan α} (hgraph : graph.Sound) (id : String) :
    (graph.destination id).Reaches graph.nodes := by
  unfold GraphPlan.destination destinationIn
  cases hfind : graph.destinations.find? fun d => d.1 == id with
  | none => trivial
  | some d => exact hgraph.destinations d (List.mem_of_find?_eq_some hfind)

theorem reaches_instrumentOutlet {graph : GraphPlan α} (hgraph : graph.Sound)
    (device : PlacedDevice α) : (instrumentOutlet graph device).Reaches graph.nodes := by
  unfold instrumentOutlet
  cases device.node with
  | none => trivial
  | some id => exact reaches_destination hgraph id

theorem mem_mappingsOf {graph : GraphPlan α} (hgraph : graph.Sound) {id : Option String}
    {m : String × String} (h : m ∈ (id.map graph.mappingsOf).getD []) :
    HasNode graph.nodes .modulator m.2 := by
  cases id with
  | none => cases h
  | some id =>
    obtain ⟨e, he, rfl⟩ := List.mem_map.mp h
    exact hgraph.mappings e (List.mem_filter.mp he).1

def IsPlayedNode (nodes : List NamedNode) (name : String) : Prop :=
  ∃ n ∈ nodes, isPlayed n.role ∧ n.name = name

structure Pattern.PlaysIn (graph : GraphPlan α) (pattern : Pattern α) (own : Option String)
    (links : List String) (outlet : Outlet) : Prop where
  instrument : IsPlayedNode graph.nodes pattern.instrument ∨ own = some pattern.instrument
  inlet : pattern.outlet = chainInlet outlet links
  mappings : ∀ m ∈ pattern.mappings, HasNode graph.nodes .modulator m.2

/-- A part is set up with links that play to an outlet, and with symbols of its own: that of
its instrument, if it has one of its own, and those of its links. -/
structure PartPlan.SetUp (graph : GraphPlan α) (plan : PartPlan α) (own : Option String)
    (links : List String) (outlet : Outlet) : Prop where
  definitions : plan.definitions.map Definition.name = own.toList ++ links.map effectSymbol
  buses : plan.buses = links.map .audioBus
  effects : ∃ skipped : List String,
    plan.effects = skipped.map skippedComment ++ wire outlet links
  reaches : outlet.Reaches graph.nodes
  pattern : ∀ pattern, plan.pattern = some pattern →
    pattern.name = plan.name ∧ pattern.PlaysIn graph own links outlet

def PartPlan.symbols (plan : PartPlan α) : List String := plan.definitions.map Definition.name

theorem map_effectName_freshAll (names : Names) (raws : List String) :
    (((names.freshAll (raws.map effectSymbol)).1.map effectName).map effectSymbol) =
      (names.freshAll (raws.map effectSymbol)).1 := by
  rw [List.map_map]
  conv_rhs => rw [← List.map_id (names.freshAll (raws.map effectSymbol)).1]
  refine List.map_congr_left fun symbol hsymbol => ?_
  obtain ⟨name, rfl⟩ := exists_freshAll_effectSymbol hsymbol
  rw [Function.comp_apply, effectName_effectSymbol, id]

theorem names_linkDefinitions (symbols : List String) (links : List (Nat × Template α))
    (h : symbols.length = links.length) :
    (List.zipWith (fun symbol (l : Nat × Template α) => Definition.mk symbol .effect l.2)
      symbols links).map Definition.name = symbols := by
  rw [List.map_zipWith, ← List.map_uncurry_zip_eq_zipWith]
  exact List.map_fst_zip (Nat.le_of_eq h)

def linkNames (names : Names) (name : String) (links : List (Nat × Template α)) : List String :=
  (names.freshAll (links.map fun l => effectSymbol (name ++ "_" ++ toString l.1))).1.map effectName

section Links

variable (names : Names) (name : String) (links : List (Nat × Template α))

theorem map_effectSymbol_linkNames : (linkNames names name links).map effectSymbol =
    (names.freshAll (links.map fun l => effectSymbol (name ++ "_" ++ toString l.1))).1 := by
  have hraws : (links.map fun l => effectSymbol (name ++ "_" ++ toString l.1)) =
      (links.map fun l => name ++ "_" ++ toString l.1).map effectSymbol := List.map_map.symm
  rw [linkNames, hraws, map_effectName_freshAll]

theorem length_linkNames : (linkNames names name links).length = links.length := by
  rw [linkNames, List.length_map, Names.length_freshAll, List.length_map]

theorem handsOut_linkNames : names.HandsOut ((linkNames names name links).map effectSymbol)
    (names.freshAll (links.map fun l => effectSymbol (name ++ "_" ++ toString l.1))).2 := by
  rw [map_effectSymbol_linkNames]
  exact names.handsOut_freshAll _

theorem nodup_linkNames : (linkNames names name links).Nodup :=
  (handsOut_linkNames names name links).distinct.of_map _

end Links

/-! ## The graph -/

variable [Scalar α]

theorem effectTemplate?_isSome {kind : DeviceKind} (options : Options α)
    (h : kind.role = .effect) : ∃ t, effectTemplate? kind options = some t := by
  cases kind <;> first | exact ⟨_, rfl⟩ | cases h

theorem name_nodeDefinition (i : Nat) (name : String) (n : GraphNode α) :
    (nodeDefinition i name n).value.map Definition.name =
      (NamedNode.mk n.id name n.kind.role).symbol? := by
  unfold nodeDefinition NamedNode.symbol?
  cases hrole : n.kind.role with
  | instrument | unknown | modulator | sink => rfl
  | effect =>
    obtain ⟨t, ht⟩ := effectTemplate?_isSome n.options hrole
    simp [ht]

def graphPlan (p : Performance α) : GraphPlan α := (planGraph .empty p).value.1

def nodeNames (p : Performance α) : List String :=
  (Names.empty.getAll (p.graph.map GraphNode.id)).1

theorem nodes_graphPlan (p : Performance α) :
    (graphPlan p).nodes = nameNodes p.graph (nodeNames p) := rfl

theorem definitions_planGraph (names : Names) (p : Performance α) :
    (planGraph names p).value.1.definitions =
      ((p.graph.zip (names.getAll (p.graph.map GraphNode.id)).1).zipIdx.filterMap fun e =>
        (nodeDefinition e.2 e.1.2 e.1.1).value) := by
  simp only [planGraph, Outcome.value_bind, Outcome.value_collectSome, Outcome.value_pure,
    List.filterMap_map]
  rfl

theorem filterMap_definitions {β : Type} {f : Definition α → Option β} {g : NamedNode → Option β}
    (h : ∀ i name n, (nodeDefinition i name n).value.bind f = g ⟨n.id, name, n.kind.role⟩)
    (names : Names) (p : Performance α) :
    (planGraph names p).value.1.definitions.filterMap f =
      (planGraph names p).value.1.nodes.filterMap g := by
  have hpairs (pairs : List (GraphNode α × String)) (s : Nat) :
      ((pairs.zipIdx s).filterMap fun e => (nodeDefinition e.2 e.1.2 e.1.1).value).filterMap f =
        (pairs.map fun e => NamedNode.mk e.1.id e.2 e.1.kind.role).filterMap g := by
    induction pairs generalizing s with
    | nil => rfl
    | cons pair rest ih =>
      obtain ⟨n, name⟩ := pair
      rw [List.zipIdx_cons, List.filterMap_cons, List.map_cons, List.filterMap_cons, ← h s name n,
        ← ih (s + 1)]
      cases (nodeDefinition s name n).value with
      | none => rfl
      | some d => rw [List.filterMap_cons, Option.bind_some]
  have hnodes : (planGraph names p).value.1.nodes =
    nameNodes p.graph (names.getAll (p.graph.map GraphNode.id)).1 := rfl
  rw [definitions_planGraph, hpairs, hnodes, nameNodes, List.zip, List.map_zipWith]

theorem names_definitions (names : Names) (p : Performance α) :
    (planGraph names p).value.1.definitions.map Definition.name =
      (planGraph names p).value.1.nodes.filterMap NamedNode.symbol? := by
  rw [← List.filterMap_eq_map]
  refine filterMap_definitions (fun i name n => ?_) names p
  rw [← name_nodeDefinition i name n]
  exact Option.map_eq_bind.symm

theorem sound_planGraph (names : Names) (p : Performance α) :
    (planGraph names p).value.1.Sound := by
  refine ⟨names_definitions names p, rfl, rfl, ⟨_, rfl, ?_⟩, reaches_routeNodes nofun, ?_⟩
  · intro st hst
    obtain ⟨⟨source, drive⟩, hd, hst⟩ := List.mem_filterMap.mp hst
    obtain ⟨hsource, id, target, hdrive⟩ := mem_drives hd
    cases drive with
    | effect name control =>
      obtain ⟨id', n, hn, hrole, rfl⟩ := driveOf_effect hdrive
      cases hst
      exact ⟨id', n, control, source, hn, hrole, hsource, rfl⟩
    | instrument id control => cases hst
  · intro m hm
    obtain ⟨⟨source, drive⟩, hd, hm⟩ := List.mem_filterMap.mp hm
    obtain ⟨hsource, -⟩ := mem_drives hd
    cases drive with
    | effect name control => cases hm
    | instrument id control =>
      cases hm
      exact hsource

theorem sound_graphPlan (p : Performance α) : (graphPlan p).Sound := sound_planGraph .empty p

/-! ## Parts -/

theorem reaches_effectBus? {nodes : List NamedNode} {id : String} {outlet : Outlet}
    (h : effectBus? nodes id = some outlet) : outlet.Reaches nodes := by
  unfold effectBus? at h
  split at h
  · next n hn =>
    split at h
    · next hrole =>
      cases h
      exact ⟨n, (mem_of_nodeNamed? hn).1, hrole, rfl⟩
    · cases h
  · cases h

def graphBus? (nodes : List NamedNode) (d : PlacedDevice α) : Option Outlet :=
  d.node.bind (effectBus? nodes)

/-- The three things that an effect can do to a chain: end it, be a link of it, or be left out. -/
theorem chainOf_cases (graph : GraphPlan α) (path : String) (d : PlacedDevice α) (j : Nat)
    (rest : List (PlacedDevice α × Nat)) :
    let path' := path ++ "." ++ entryPath "effects" j
    let chain := chainOf graph path rest
    (∃ outlet, graphBus? graph.nodes d = some outlet ∧
      chainOf graph path ((d, j) :: rest) = ⟨⟨[], [], some outlet⟩, if rest.isEmpty then [] else
        [.warning path' "effects after a graph effect are not reachable, dropped"]⟩) ∨
    (graphBus? graph.nodes d = none ∧ ∃ t, effectTemplate? d.kind d.options = some t ∧
      chainOf graph path ((d, j) :: rest) =
        ⟨{ chain.value with links := (j, t) :: chain.value.links }, chain.diagnostics⟩) ∨
    graphBus? graph.nodes d = none ∧ effectTemplate? d.kind d.options = none ∧
      chainOf graph path ((d, j) :: rest) =
        ⟨{ chain.value with skipped := d.kind.text :: chain.value.skipped },
          .warning path' ("unsupported effect '" ++ d.kind.text ++ "', left out of the chain")
            :: chain.diagnostics⟩ := by
  intro path' chain
  unfold graphBus?
  rw [chainOf]
  cases hbus : d.node.bind (effectBus? graph.nodes) with
  | some outlet =>
    refine .inl ⟨outlet, rfl, ?_⟩
    cases rest <;> rfl
  | none =>
    cases htemplate : effectTemplate? d.kind d.options with
    | some t =>
      refine .inr (.inl ⟨rfl, t, rfl, ?_⟩)
      exact congrArg (Outcome.mk _) (List.append_nil _)
    | none =>
      refine .inr (.inr ⟨rfl, rfl, ?_⟩)
      exact congrArg (Outcome.mk _) (congrArg (List.cons _) (List.append_nil _))

theorem reaches_chainOf {graph : GraphPlan α} {path : String}
    {devices : List (PlacedDevice α × Nat)} {outlet : Outlet}
    (h : (chainOf graph path devices).value.outlet = some outlet) :
    outlet.Reaches graph.nodes := by
  induction devices with
  | nil => cases h
  | cons first rest ih =>
    obtain ⟨d, j⟩ := first
    rcases chainOf_cases graph path d j rest with
      ⟨found, hfound, heq⟩ | ⟨-, t, -, heq⟩ | ⟨-, -, heq⟩
    · rw [heq] at h
      cases h
      obtain ⟨id, -, hbus⟩ := Option.bind_eq_some_iff.mp hfound
      exact reaches_effectBus? hbus
    · rw [heq] at h
      exact ih h
    · rw [heq] at h
      exact ih h

theorem exists_partInstrument (graph : GraphPlan α) (names : Names) (path name : String)
    (device : PlacedDevice α) :
    ∃ own symbol definitions names',
      (partInstrument graph names path name device).value = (symbol, definitions, names') ∧
      definitions.map Definition.name = own.toList ∧ names.HandsOut own.toList names' ∧
      (IsPlayedNode graph.nodes symbol ∨ own = some symbol) := by
  unfold partInstrument
  cases hnode : device.node.bind graph.instrument? with
  | some symbol =>
    obtain ⟨id, -, hsymbol⟩ := Option.bind_eq_some_iff.mp hnode
    unfold GraphPlan.instrument? at hsymbol
    split at hsymbol
    · next n hn =>
      split at hsymbol
      · next hplayed =>
        cases hsymbol
        exact ⟨none, n.name, [], names, rfl, rfl, names.handsOut_nil,
          .inl ⟨n, (mem_of_nodeNamed? hn).1, hplayed, rfl⟩⟩
      · cases hsymbol
    · cases hsymbol
  | none =>
    exact ⟨some _, _, _, _, rfl, rfl, names.handsOut_fresh (name ++ "_synth"), .inr rfl⟩

theorem reaches_partOutlet {graph : GraphPlan α} (hgraph : graph.Sound) (path : String)
    (part : PlayedPart α) :
    ((chainOf graph path part.effects.zipIdx).value.outlet.getD
      (instrumentOutlet graph part.instrument)).Reaches graph.nodes := by
  cases houtlet : (chainOf graph path part.effects.zipIdx).value.outlet with
  | none => exact reaches_instrumentOutlet hgraph part.instrument
  | some outlet => exact reaches_chainOf houtlet

theorem setUp_planPart {graph : GraphPlan α} (hgraph : graph.Sound) (p : Performance α)
    (names : Names) (i : Nat) (name : String) (part : PlayedPart α) :
    ∃ own links outlet, (planPart p graph names i name part).value.1.SetUp graph own links outlet ∧
      (planPart p graph names i name part).value.1.name = name ∧
      names.HandsOut (own.toList ++ links.map effectSymbol)
        (planPart p graph names i name part).value.2 := by
  obtain ⟨own, symbol, definitions, names', hvalue, hown, hhanded, hinstrument⟩ :=
    exists_partInstrument graph names (entryPath "sequences" i) name part.instrument
  have hreaches := reaches_partOutlet hgraph (entryPath "sequences" i) part
  generalize hchain : (chainOf graph (entryPath "sequences" i) part.effects.zipIdx).value = chain
    at hreaches
  have hsymbols := map_effectSymbol_linkNames names' name chain.links
  have hlength := congrArg List.length hsymbols
  rw [List.length_map, length_linkNames] at hlength
  simp only [planPart, Outcome.value_bind, Outcome.value_pure, hvalue, hchain]
  refine ⟨own, linkNames names' name chain.links, _,
    ⟨?_, rfl, ⟨chain.skipped, rfl⟩, hreaches, ?_⟩, trivial, ?_⟩
  · rw [List.map_append, hown, names_linkDefinitions _ _ hlength.symm, hsymbols]
  · intro pattern hpattern
    dsimp only at hpattern
    split at hpattern
    · cases hpattern
    · cases hpattern
      exact ⟨rfl, hinstrument, rfl, fun m hm => mem_mappingsOf hgraph hm⟩
  · exact hhanded.append (handsOut_linkNames names' name chain.links)

theorem planParts_cons (p : Performance α) (graph : GraphPlan α) (names : Names) (i : Nat)
    (part : PlayedPart α) (name : String) (rest : List (PlayedPart α × String)) :
    (planParts p graph names i ((part, name) :: rest)).value =
      (planPart p graph names i name part).value.1 ::
        (planParts p graph (planPart p graph names i name part).value.2 (i + 1) rest).value := rfl

theorem setUp_planParts {graph : GraphPlan α} (hgraph : graph.Sound) (p : Performance α)
    (names : Names) (i : Nat) (parts : List (PlayedPart α × String)) :
    ∀ plan ∈ (planParts p graph names i parts).value,
      ∃ own links outlet, plan.SetUp graph own links outlet := by
  induction parts generalizing names i with
  | nil => nofun
  | cons first rest ih =>
    obtain ⟨part, name⟩ := first
    obtain ⟨own, links, outlet, hsetUp, -, -⟩ := setUp_planPart hgraph p names i name part
    rw [planParts_cons]
    intro plan hplan
    rcases List.mem_cons.mp hplan with rfl | hplan
    · exact ⟨own, links, outlet, hsetUp⟩
    · exact ih _ (i + 1) plan hplan

theorem names_planParts {graph : GraphPlan α} (hgraph : graph.Sound) (p : Performance α)
    (names : Names) (i : Nat) (parts : List (PlayedPart α × String)) :
    (planParts p graph names i parts).value.map PartPlan.name = parts.map Prod.snd := by
  induction parts generalizing names i with
  | nil => rfl
  | cons first rest ih =>
    obtain ⟨part, name⟩ := first
    obtain ⟨-, -, -, -, hname, -⟩ := setUp_planPart hgraph p names i name part
    rw [planParts_cons, List.map_cons, List.map_cons, hname, ih]

theorem handsOut_planParts {graph : GraphPlan α} (hgraph : graph.Sound) (p : Performance α)
    (names : Names) (i : Nat) (parts : List (PlayedPart α × String)) :
    ∃ names', names.HandsOut
      ((planParts p graph names i parts).value.flatMap PartPlan.symbols) names' := by
  induction parts generalizing names i with
  | nil => exact ⟨names, names.handsOut_nil⟩
  | cons first rest ih =>
    obtain ⟨part, name⟩ := first
    obtain ⟨own, links, outlet, hsetUp, -, hhanded⟩ :=
      setUp_planPart hgraph p names i name part
    obtain ⟨names', hrest⟩ := ih (planPart p graph names i name part).value.2 (i + 1)
    rw [← hsetUp.definitions] at hhanded
    exact ⟨names', hhanded.append hrest⟩

/-! ## The plans of a performance -/

def partNames (p : Performance α) : List String :=
  (Names.empty.freshAll (p.parts.map PlayedPart.label)).1

def partPlans (p : Performance α) : List (PartPlan α) :=
  (planParts p (graphPlan p) (planGraph .empty p).value.2 0 (p.parts.zip (partNames p))).value

theorem setUp_partPlans (p : Performance α) :
    ∀ plan ∈ partPlans p, ∃ own links outlet, plan.SetUp (graphPlan p) own links outlet :=
  setUp_planParts (sound_graphPlan p) p _ 0 _

theorem body_scriptOf (settings : Settings α) (p : Performance α) :
    (scriptOf settings p).value.body =
      assemble p.tempo.initialTempo (gridOf settings p) (graphPlan p) (partPlans p)
        (timeline p (graphPlan p) (partPlans p) (gridOf settings p)).value := rfl

end Partitura.Script
