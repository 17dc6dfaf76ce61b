import Partitura.Proofs.Script.Plans
import Partitura.Proofs.Script.Scope

/-!
# Everything is defined before it is used

A script defines all synths, then sets up buses, then what runs on them, then patterns, then
the timeline, and then plays. Each of these sections uses only what itself or one before it
defines, whatever the graph and the parts are.
-/

namespace Partitura.Script

variable {α : Type} {known : List Name} {graph : GraphPlan α}
  {parts : List (PartPlan α)}

/-! ## Definitions -/

def definitionStatements (bpm : α) (definitions : List (Definition α)) : List (Statement α) :=
  .tempo bpm :: definitionSection "Instruments" .instrument definitions
    ++ definitionSection "Effects" .effect definitions
    ++ definitionSection "Modulators" .modulator definitions
    ++ [.blank, .sync]

theorem scoped_definitionSection (title : String) (purpose : Purpose)
    (definitions : List (Definition α)) :
    Scoped known (definitionSection title purpose definitions) := by
  refine scoped_titled title (scoped_of_uses fun st hst => ?_)
  obtain ⟨d, -, rfl⟩ := List.mem_map.mp hst
  exact List.nil_subset _

theorem defines_definitionSection (title : String) (purpose : Purpose)
    (definitions : List (Definition α)) :
    (definitionSection title purpose definitions).flatMap Statement.defines =
      (definitions.filter fun d => d.purpose == purpose).map fun d => .symbol d.name := by
  rw [definitionSection, defines_titled, List.flatMap_map, List.map_eq_flatMap]
  rfl

theorem scoped_definitionStatements (bpm : α) (definitions : List (Definition α)) :
    Scoped known (definitionStatements bpm definitions) := by
  simp only [definitionStatements, scoped_append]
  refine ⟨⟨⟨⟨List.nil_subset _, ?_⟩, ?_⟩, ?_⟩, ⟨List.nil_subset _, List.nil_subset _, trivial⟩⟩
  all_goals exact scoped_definitionSection _ _ _

theorem perm_purposes (definitions : List (Definition α)) :
    ((definitions.filter fun d => d.purpose == .instrument)
      ++ ((definitions.filter fun d => d.purpose == .effect)
        ++ definitions.filter fun d => d.purpose == .modulator)).Perm definitions := by
  induction definitions with
  | nil => exact .refl _
  | cons d rest ih =>
    cases hpurpose : d.purpose with
    | instrument => simpa [hpurpose] using ih
    | effect => simpa [hpurpose] using List.perm_middle.trans (ih.cons d)
    | modulator =>
      have hmiddle := List.perm_middle.trans (((List.append_assoc ..).symm ▸ ih).cons d)
      simpa [hpurpose] using hmiddle

theorem perm_definitionStatements (bpm : α) (definitions : List (Definition α)) :
    ((definitionStatements bpm definitions).flatMap Statement.defines).Perm
      (definitions.map fun d => .symbol d.name) := by
  have hsections : (definitionStatements bpm definitions).flatMap Statement.defines =
      ((definitions.filter fun d => d.purpose == .instrument)
        ++ ((definitions.filter fun d => d.purpose == .effect)
          ++ definitions.filter fun d => d.purpose == .modulator)).map
            fun d => .symbol d.name := by
    simp only [definitionStatements, List.flatMap_append, List.flatMap_cons,
      defines_definitionSection, List.map_append]
    simp [Statement.defines]
  rw [hsections]
  exact (perm_purposes definitions).map _

def defined (bpm : α) (graph : GraphPlan α) (parts : List (PartPlan α)) : List Name :=
  (definitionStatements bpm
    (graph.definitions ++ parts.flatMap PartPlan.definitions)).flatMap Statement.defines

/-! ## Routing -/

def symbolsOf (graph : GraphPlan α) (parts : List (PartPlan α)) : List String :=
  graph.definitions.map Definition.name ++ parts.flatMap PartPlan.symbols

theorem perm_defined (bpm : α) (graph : GraphPlan α) (parts : List (PartPlan α)) :
    (defined bpm graph parts).Perm ((symbolsOf graph parts).map .symbol) := by
  have hsymbols : (graph.definitions ++ parts.flatMap PartPlan.definitions).map
      (fun d => Name.symbol d.name) = (symbolsOf graph parts).map .symbol := by
    simp [symbolsOf, PartPlan.symbols, List.map_flatMap, Function.comp_def]
  exact hsymbols ▸ perm_definitionStatements bpm _

theorem HasNode.mem_symbolsOf {role : DeviceRole} {name symbol : String} (hgraph : graph.Sound)
    (h : HasNode graph.nodes role name)
    (hsymbol : (NamedNode.mk "" name role).symbol? = some symbol) :
    symbol ∈ symbolsOf graph parts := by
  obtain ⟨n, hn, hrole, hname⟩ := h
  refine List.mem_append_left _ ?_
  rw [hgraph.definitions]
  refine List.mem_filterMap.mpr ⟨n, hn, ?_⟩
  rw [← hsymbol, NamedNode.symbol?, NamedNode.symbol?, hrole, hname]

theorem IsPlayedNode.mem_symbolsOf {name : String} (hgraph : graph.Sound)
    (h : IsPlayedNode graph.nodes name) : name ∈ symbolsOf graph parts := by
  obtain ⟨n, hn, hplayed, rfl⟩ := h
  exact HasNode.mem_symbolsOf hgraph ⟨n, hn, rfl, rfl⟩ (symbol?_of_isPlayed hplayed)

theorem PartPlan.SetUp.mem_symbolsOf {plan : PartPlan α} {own : Option String}
    {links : List String} {outlet : Outlet} {symbol : String}
    (h : plan.SetUp graph own links outlet) (hplan : plan ∈ parts)
    (hsymbol : symbol ∈ own.toList ++ links.map effectSymbol) :
    symbol ∈ symbolsOf graph parts := by
  refine List.mem_append_right _ (List.mem_flatMap.mpr ⟨plan, hplan, ?_⟩)
  rw [PartPlan.symbols, h.definitions]
  exact hsymbol

def busStatements (graph : GraphPlan α) (parts : List (PartPlan α)) : List (Statement α) :=
  graph.buses ++ parts.flatMap PartPlan.buses

def effectStatements (graph : GraphPlan α) (parts : List (PartPlan α)) : List (Statement α) :=
  parts.flatMap PartPlan.effects ++ graph.effects

theorem routingStatements_eq (graph : GraphPlan α) (parts : List (PartPlan α)) :
    routingStatements graph parts =
      busStatements graph parts ++ (effectStatements graph parts ++ graph.modulators) := by
  simp only [routingStatements, busStatements, effectStatements, List.append_assoc]

theorem HasNode.bus_defined {name : String} (hgraph : graph.Sound)
    (h : HasNode graph.nodes .effect name) :
    .variable (.bus name) ∈ (busStatements graph parts).flatMap Statement.defines := by
  obtain ⟨n, hn, hrole, rfl⟩ := h
  refine List.mem_flatMap.mpr ⟨.audioBus n.name, List.mem_append_left _ ?_,
    List.mem_singleton_self _⟩
  rw [hgraph.buses]
  exact List.mem_map.mpr ⟨n, List.mem_filter.mpr ⟨hn, beq_iff_eq.mpr hrole⟩, rfl⟩

theorem PartPlan.SetUp.bus_defined {plan : PartPlan α} {own : Option String}
    {links : List String} {outlet : Outlet} {link : String}
    (h : plan.SetUp graph own links outlet) (hplan : plan ∈ parts) (hlink : link ∈ links) :
    .variable (.bus link) ∈ (busStatements graph parts).flatMap Statement.defines := by
  refine List.mem_flatMap.mpr ⟨.audioBus link, List.mem_append_right _ ?_,
    List.mem_singleton_self _⟩
  refine List.mem_flatMap.mpr ⟨plan, hplan, ?_⟩
  rw [h.buses]
  exact List.mem_map_of_mem hlink

theorem Outlet.uses_subset {outlet : Outlet} (hgraph : graph.Sound)
    (hreaches : outlet.Reaches graph.nodes) :
    outlet.uses ⊆ (busStatements graph parts).flatMap Statement.defines := by
  cases outlet with
  | hardware => exact List.nil_subset _
  | bus name =>
    intro n hn
    rw [List.mem_singleton.mp hn]
    exact HasNode.bus_defined hgraph hreaches

theorem mem_wire {outlet : Outlet} {links : List String} {st : Statement α}
    (h : st ∈ wire outlet links) :
    ∃ link ∈ links, ∃ o, st = .effect link o ∧ (o = outlet ∨ ∃ next ∈ links, o = .bus next) := by
  induction links with
  | nil => cases h
  | cons link rest ih =>
    cases rest with
    | nil =>
      rw [List.mem_singleton.mp h]
      exact ⟨link, List.mem_cons_self, outlet, rfl, .inl rfl⟩
    | cons next others =>
      rcases List.mem_cons.mp h with rfl | h
      · exact ⟨link, List.mem_cons_self, .bus next, rfl,
          .inr ⟨next, List.mem_cons_of_mem _ List.mem_cons_self, rfl⟩⟩
      · obtain ⟨l, hl, o, rfl, ho⟩ := ih h
        refine ⟨l, List.mem_cons_of_mem _ hl, o, rfl, ho.imp_right ?_⟩
        rintro ⟨next', hnext', rfl⟩
        exact ⟨next', List.mem_cons_of_mem _ hnext', rfl⟩

def AllSetUp (graph : GraphPlan α) (parts : List (PartPlan α)) : Prop :=
  ∀ plan ∈ parts, ∃ own links outlet, plan.SetUp graph own links outlet

def KnowsSymbols (known : List Name) (graph : GraphPlan α) (parts : List (PartPlan α)) : Prop :=
  ∀ symbol ∈ symbolsOf graph parts, .symbol symbol ∈ known

theorem effect_uses_subset {buses : List Name} {name : String} {outlet : Outlet}
    (hsymbol : .symbol (effectSymbol name) ∈ known) (hbus : .variable (.bus name) ∈ buses)
    (houtlet : outlet.uses ⊆ buses) :
    (Statement.effect (α := α) name outlet).uses ⊆ known ++ buses := by
  refine List.cons_subset.mpr ⟨List.mem_append_left _ hsymbol, List.cons_subset.mpr ⟨?_, ?_⟩⟩
  · exact List.mem_append_right _ hbus
  · exact List.Subset.trans houtlet (List.subset_append_right _ _)

theorem scoped_effectStatements (hgraph : graph.Sound) (hparts : AllSetUp graph parts)
    (hknown : KnowsSymbols known graph parts) :
    Scoped (known ++ (busStatements graph parts).flatMap Statement.defines)
      (effectStatements graph parts) := by
  refine scoped_of_uses fun st hst => ?_
  rcases List.mem_append.mp hst with hst | hst
  · obtain ⟨plan, hplan, hst⟩ := List.mem_flatMap.mp hst
    obtain ⟨own, links, outlet, hsetUp⟩ := hparts plan hplan
    obtain ⟨skipped, heffects⟩ := hsetUp.effects
    rw [heffects] at hst
    rcases List.mem_append.mp hst with hst | hst
    · obtain ⟨kind, -, rfl⟩ := List.mem_map.mp hst
      exact List.nil_subset _
    · obtain ⟨link, hlink, o, rfl, ho⟩ := mem_wire hst
      refine effect_uses_subset (hknown _ ?_) (hsetUp.bus_defined hplan hlink) ?_
      · exact hsetUp.mem_symbolsOf hplan (List.mem_append_right _ (List.mem_map_of_mem hlink))
      · rcases ho with rfl | ⟨next, hnext, rfl⟩
        · exact Outlet.uses_subset hgraph hsetUp.reaches
        · intro n hn
          rw [List.mem_singleton.mp hn]
          exact hsetUp.bus_defined hplan hnext
  · rw [hgraph.effects] at hst
    obtain ⟨name, outlet, hname, hreaches, rfl⟩ := mem_effectSynths hgraph.destinations hst
    exact effect_uses_subset (hknown _ (hname.mem_symbolsOf hgraph rfl))
      (hname.bus_defined hgraph) (Outlet.uses_subset hgraph hreaches)

theorem effect_defined {id : String} {n : NamedNode} (hgraph : graph.Sound)
    (hn : nodeNamed? graph.nodes id = some n) (hrole : n.role = .effect) :
    .variable (.effect n.name) ∈ (effectStatements graph parts).flatMap Statement.defines := by
  obtain ⟨outlet, hmem⟩ := exists_effectSynth (α := α) graph.destinations hn hrole
  rw [← hgraph.effects] at hmem
  exact List.mem_flatMap.mpr
    ⟨.effect n.name outlet, List.mem_append_right _ hmem, List.mem_singleton_self _⟩

theorem HasNode.modulator_defined {name : String}
    (h : HasNode graph.nodes .modulator name) :
    .variable (.modulatorBus name) ∈
        (graph.nodes.flatMap modulatorStatements).flatMap (Statement.defines (α := α)) ∧
      .variable (.modulator name) ∈
        (graph.nodes.flatMap modulatorStatements).flatMap (Statement.defines (α := α)) := by
  obtain ⟨n, hn, hrole, rfl⟩ := h
  have hstatements : modulatorStatements n =
      [.controlBus n.name, .modulator (α := α) n.name] := by
    simp [modulatorStatements, hrole]
  constructor
  · refine List.mem_flatMap.mpr ⟨.controlBus n.name, List.mem_flatMap.mpr ⟨n, hn, ?_⟩,
      List.mem_singleton_self _⟩
    simp [hstatements]
  · refine List.mem_flatMap.mpr ⟨.modulator n.name, List.mem_flatMap.mpr ⟨n, hn, ?_⟩,
      List.mem_singleton_self _⟩
    simp [hstatements]

theorem scoped_modulators (hgraph : graph.Sound) (hknown : KnowsSymbols known graph parts) :
    Scoped (known ++ (effectStatements graph parts).flatMap Statement.defines)
      graph.modulators := by
  obtain ⟨maps, hmodulators, hmaps⟩ := hgraph.modulators
  rw [hmodulators, scoped_append]
  constructor
  · refine scoped_flatMap fun n hn => ?_
    unfold modulatorStatements
    split
    · next hrole =>
      refine ⟨List.nil_subset _, List.cons_subset.mpr ⟨?_, ?_⟩, trivial⟩
      · refine List.mem_append_left _ (List.mem_append_left _ (hknown _ ?_))
        exact HasNode.mem_symbolsOf hgraph ⟨n, hn, hrole, rfl⟩ rfl
      · exact List.subset_append_right _ _
    · trivial
  · refine scoped_of_uses fun st hst => ?_
    obtain ⟨id, n, control, source, hn, hrole, hsource, rfl⟩ := hmaps st hst
    refine List.cons_subset.mpr ⟨?_, List.cons_subset.mpr ⟨?_, List.nil_subset _⟩⟩
    · exact List.mem_append_left _ (List.mem_append_right _ (effect_defined hgraph hn hrole))
    · exact List.mem_append_right _ hsource.modulator_defined.1

theorem scoped_routing (hgraph : graph.Sound) (hparts : AllSetUp graph parts)
    (hknown : KnowsSymbols known graph parts) :
    Scoped known (routingStatements graph parts) := by
  rw [routingStatements_eq, scoped_append, scoped_append]
  refine ⟨scoped_of_uses fun st hst => ?_, scoped_effectStatements hgraph hparts hknown, ?_⟩
  · have hbus : ∃ name, st = .audioBus name := by
      rcases List.mem_append.mp hst with hst | hst
      · rw [hgraph.buses] at hst
        obtain ⟨n, -, rfl⟩ := List.mem_map.mp hst
        exact ⟨n.name, rfl⟩
      · obtain ⟨plan, hplan, hst⟩ := List.mem_flatMap.mp hst
        obtain ⟨own, links, outlet, hsetUp⟩ := hparts plan hplan
        rw [hsetUp.buses] at hst
        obtain ⟨link, -, rfl⟩ := List.mem_map.mp hst
        exact ⟨link, rfl⟩
    obtain ⟨name, rfl⟩ := hbus
    exact List.nil_subset _
  · refine scoped_modulators hgraph fun symbol hsymbol => ?_
    exact List.mem_append_left _ (hknown symbol hsymbol)

def routed (graph : GraphPlan α) (parts : List (PartPlan α)) : List Name :=
  (routingStatements graph parts).flatMap Statement.defines

theorem buses_subset_routed :
    (busStatements graph parts).flatMap Statement.defines ⊆ routed graph parts := by
  rw [routed, routingStatements_eq, List.flatMap_append]
  exact List.subset_append_left _ _

theorem effects_subset_routed :
    (effectStatements graph parts).flatMap Statement.defines ⊆ routed graph parts := by
  rw [routed, routingStatements_eq, List.flatMap_append, List.flatMap_append]
  exact List.Subset.trans (List.subset_append_left _ _) (List.subset_append_right _ _)

theorem HasNode.modulator_routed {name : String} (hgraph : graph.Sound)
    (h : HasNode graph.nodes .modulator name) :
    .variable (.modulatorBus name) ∈ routed graph parts ∧
      .variable (.modulator name) ∈ routed graph parts := by
  obtain ⟨maps, hmodulators, -⟩ := hgraph.modulators
  have hsubset : (graph.nodes.flatMap modulatorStatements).flatMap (Statement.defines (α := α)) ⊆
      routed graph parts := by
    intro n hn
    simp only [routed, routingStatements, hmodulators, List.flatMap_append, List.mem_append]
    exact .inr (.inl hn)
  exact ⟨hsubset h.modulator_defined.1, hsubset h.modulator_defined.2⟩

/-! ## Patterns -/

theorem Pattern.PlaysIn.uses_subset {pattern : Pattern α} {plan : PartPlan α}
    {own : Option String} {links : List String} {outlet : Outlet} (hgraph : graph.Sound)
    (hknown : KnowsSymbols known graph parts) (hplan : plan ∈ parts)
    (hsetUp : plan.SetUp graph own links outlet)
    (hplays : pattern.PlaysIn graph own links outlet) :
    pattern.uses ⊆ known ++ routed graph parts ++ [.variable (.group pattern.name)] := by
  have hinlet : pattern.outlet.uses ⊆ routed graph parts := by
    rw [hplays.inlet]
    cases links with
    | nil => exact List.Subset.trans (Outlet.uses_subset hgraph hsetUp.reaches) buses_subset_routed
    | cons link rest =>
      intro n hn
      rw [List.mem_singleton.mp hn]
      exact buses_subset_routed (hsetUp.bus_defined hplan List.mem_cons_self)
  have hinstrument : pattern.instrument ∈ symbolsOf graph parts := by
    rcases hplays.instrument with hnode | hown
    · exact hnode.mem_symbolsOf hgraph
    · exact hsetUp.mem_symbolsOf hplan (List.mem_append_left _ (by simp [hown]))
  intro n hn
  simp only [Pattern.uses, List.cons_append, List.mem_cons, List.mem_append, List.mem_map] at hn
  simp only [List.mem_append, List.mem_singleton]
  rcases hn with rfl | rfl | hn | ⟨m, hm, rfl⟩
  · exact .inl (.inl (hknown _ hinstrument))
  · exact .inr rfl
  · exact .inl (.inr (hinlet hn))
  · exact .inl (.inr ((hplays.mappings m hm).modulator_routed hgraph).1)

theorem scoped_patterns (hgraph : graph.Sound) (hparts : AllSetUp graph parts)
    (hknown : KnowsSymbols known graph parts) :
    Scoped (known ++ routed graph parts) (parts.flatMap PartPlan.statements) := by
  refine scoped_flatMap fun plan hplan => ?_
  obtain ⟨own, links, outlet, hsetUp⟩ := hparts plan hplan
  unfold PartPlan.statements
  split
  · next pattern hpattern =>
    obtain ⟨hname, hplays⟩ := hsetUp.pattern pattern hpattern
    refine ⟨List.nil_subset _, ?_, trivial⟩
    have huses := hplays.uses_subset hgraph hknown hplan hsetUp
    rwa [hname] at huses
  · exact ⟨List.nil_subset _, trivial⟩

def patterned (parts : List (PartPlan α)) : List Name :=
  (parts.flatMap PartPlan.statements).flatMap Statement.defines

theorem mem_patterned (hparts : AllSetUp graph parts) {plan : PartPlan α} (hplan : plan ∈ parts)
    (hplays : plan.pattern.isSome) :
    .variable (.group plan.name) ∈ patterned parts ∧
      .variable (.pattern plan.name) ∈ patterned parts := by
  obtain ⟨pattern, hpattern⟩ := Option.isSome_iff_exists.mp hplays
  obtain ⟨own, links, outlet, hsetUp⟩ := hparts plan hplan
  have hname := (hsetUp.pattern pattern hpattern).1
  have hstatements : plan.statements = [.group plan.name, .pattern pattern] := by
    simp [PartPlan.statements, hpattern]
  constructor
  · refine List.mem_flatMap.mpr ⟨.group plan.name, List.mem_flatMap.mpr ⟨plan, hplan, ?_⟩,
      List.mem_singleton_self _⟩
    simp [hstatements]
  · refine List.mem_flatMap.mpr ⟨.pattern pattern, List.mem_flatMap.mpr ⟨plan, hplan, ?_⟩, ?_⟩
    · simp [hstatements]
    · simp [Statement.defines, hname]

/-! ## Playing -/

def playStatements (parts : List (PartPlan α)) (grid : α) : List (Statement α) :=
  (parts.filter fun part => part.pattern.isSome).map fun part => .play part.name grid

theorem scoped_playStatements (hparts : AllSetUp graph parts) (grid : α) :
    Scoped (patterned parts) (playStatements parts grid) := by
  refine scoped_of_uses fun st hst => ?_
  obtain ⟨plan, hplan, rfl⟩ := List.mem_map.mp hst
  obtain ⟨hmem, hplays⟩ := List.mem_filter.mp hplan
  exact List.cons_subset.mpr ⟨(mem_patterned hparts hmem hplays).2, List.nil_subset _⟩

/-! ## Timeline -/

theorem mem_receivers {node : Option String} {r : Receiver}
    (h : r ∈ receivers graph parts node) :
    r = .everything ∨
      (∃ id n, nodeNamed? graph.nodes id = some n ∧ n.role = .effect ∧
        r = .variable (.effect n.name)) ∨
      (∃ name, HasNode graph.nodes .modulator name ∧ r = .variable (.modulator name)) ∨
      ∃ plan ∈ parts, plan.pattern.isSome ∧ r = .variable (.group plan.name) := by
  unfold receivers at h
  split at h
  · exact .inl (List.mem_singleton.mp h)
  · next id =>
    split at h
    · exact .inl (List.mem_singleton.mp h)
    · next named hnamed =>
      split at h
      · next hrole => exact .inr (.inl ⟨id, named, hnamed, hrole, List.mem_singleton.mp h⟩)
      · next hrole =>
        have hnode : HasNode graph.nodes .modulator named.name :=
          ⟨named, (mem_of_nodeNamed? hnamed).1, hrole, rfl⟩
        exact .inr (.inr (.inl ⟨named.name, hnode, List.mem_singleton.mp h⟩))
      · exact .inl (List.mem_singleton.mp h)
      · obtain ⟨plan, hplan, rfl⟩ := List.mem_map.mp h
        obtain ⟨hmem, hplays⟩ := List.mem_filter.mp hplan
        have hpattern := (Bool.and_eq_true_iff.mp hplays).1
        exact .inr (.inr (.inr ⟨plan, hmem, hpattern, rfl⟩))

theorem receivers_subset (hgraph : graph.Sound) (hparts : AllSetUp graph parts)
    (node : Option String) :
    (receivers graph parts node).flatMap Receiver.uses ⊆ routed graph parts ++ patterned parts := by
  intro n hn
  obtain ⟨r, hr, huse⟩ := List.mem_flatMap.mp hn
  rcases mem_receivers hr with rfl | ⟨id, named, hnamed, hrole, rfl⟩ | ⟨name, hname, rfl⟩ |
    ⟨plan, hplan, hplays, rfl⟩
  · cases huse
  · rw [List.mem_singleton.mp huse]
    exact List.mem_append_left _ (effects_subset_routed (effect_defined hgraph hnamed hrole))
  · rw [List.mem_singleton.mp huse]
    exact List.mem_append_left _ (hname.modulator_routed hgraph).2
  · rw [List.mem_singleton.mp huse]
    exact List.mem_append_right _ (mem_patterned hparts hplan hplays).1

theorem assemble_eq (bpm grid : α) (graph : GraphPlan α) (parts : List (PartPlan α))
    (timeline : List (Statement α)) :
    assemble bpm grid graph parts timeline =
      definitionStatements bpm (graph.definitions ++ parts.flatMap PartPlan.definitions)
        ++ (titled "Routing" (routingStatements graph parts)
          ++ ([.blank, .comment "Patterns"] ++ (parts.flatMap PartPlan.statements
            ++ (titled "Timeline" timeline ++ titled "Play" (playStatements parts grid))))) := by
  simp only [assemble, definitionStatements, playStatements, List.append_assoc]

theorem knowsSymbols_defined (bpm : α) (graph : GraphPlan α) (parts : List (PartPlan α)) :
    KnowsSymbols (defined bpm graph parts) graph parts := by
  intro symbol hsymbol
  exact (perm_defined bpm graph parts).mem_iff.mpr (List.mem_map_of_mem hsymbol)

variable [Scalar α]

theorem automationAction_uses {tempo : TempoMap α} {e : PlayedAutomation α} {beat : α}
    {action : Action α}
    (h : (automationAction tempo graph parts e).value = some (beat, action)) :
    action.uses = (receivers graph parts e.node).flatMap Receiver.uses := by
  unfold automationAction at h
  dsimp only at h
  split at h
  · cases h
  · cases h
    rfl

def changesOf (p : Performance α) (graph : GraphPlan α) (parts : List (PartPlan α)) :
    List (α × Action α) :=
  sortByTime Prod.fst ((p.tempo.changes.map fun s => (s.beat, Action.tempo s.bpm))
    ++ p.automation.filterMap fun e => (automationAction p.tempo graph parts e).value)

theorem value_timeline (p : Performance α) (graph : GraphPlan α) (parts : List (PartPlan α))
    (grid : α) :
    (timeline p graph parts grid).value = p.remarks.map (remarkComment p.tempo)
      ++ if ((changesOf p graph parts).map fun e => Statement.schedule e.1 e.2).isEmpty then []
        else .start grid :: (changesOf p graph parts).map fun e => .schedule e.1 e.2 := by
  simp only [timeline, changesOf, Outcome.value_bind, Outcome.value_collectSome,
    Outcome.value_pure, List.filterMap_map]
  rfl

theorem uses_changesOf (hgraph : graph.Sound) (hparts : AllSetUp graph parts)
    {p : Performance α} {e : α × Action α} (he : e ∈ changesOf p graph parts) :
    e.2.uses ⊆ routed graph parts ++ patterned parts := by
  rcases List.mem_append.mp (List.mem_mergeSort.mp he) with he | he
  · obtain ⟨s, -, rfl⟩ := List.mem_map.mp he
    exact List.nil_subset _
  · obtain ⟨a, -, ha⟩ := List.mem_filterMap.mp he
    rw [automationAction_uses ha]
    exact receivers_subset hgraph hparts a.node

theorem scoped_timeline (hgraph : graph.Sound) (hparts : AllSetUp graph parts)
    (p : Performance α) (grid : α) :
    Scoped (routed graph parts ++ patterned parts) (timeline p graph parts grid).value := by
  rw [value_timeline, scoped_append]
  constructor
  · refine scoped_of_uses fun st hst => ?_
    obtain ⟨r, -, rfl⟩ := List.mem_map.mp hst
    exact List.nil_subset _
  · split
    · trivial
    · refine ⟨List.nil_subset _, scoped_of_uses fun st hst => ?_⟩
      obtain ⟨e, he, rfl⟩ := List.mem_map.mp hst
      refine List.cons_subset.mpr ⟨List.mem_append_right _ (List.mem_singleton_self _), ?_⟩
      refine List.Subset.trans (uses_changesOf hgraph hparts he) ?_
      exact List.Subset.trans (List.subset_append_left _ _) (List.subset_append_left _ _)

/-! ## Scripts -/

theorem scoped_assemble (hgraph : graph.Sound) (hparts : AllSetUp graph parts) (bpm grid : α)
    (p : Performance α) :
    Scoped [] (assemble bpm grid graph parts (timeline p graph parts grid).value) := by
  have hknown := knowsSymbols_defined bpm graph parts
  have htitle : ([.blank, .comment "Patterns"] : List (Statement α)).flatMap Statement.defines =
    [] := rfl
  simp only [assemble_eq, scoped_append, defines_titled, htitle, List.nil_append,
    List.append_nil]
  refine ⟨scoped_definitionStatements _ _, ?_, ?_, ?_, ?_, ?_⟩
  · exact scoped_titled _ (scoped_routing hgraph hparts hknown)
  · exact ⟨List.nil_subset _, List.nil_subset _, trivial⟩
  · exact scoped_patterns hgraph hparts hknown
  · refine scoped_titled _ ((scoped_timeline hgraph hparts p grid).mono ?_)
    rw [List.append_assoc]
    exact List.subset_append_right _ _
  · refine scoped_titled _ ((scoped_playStatements hparts grid).mono ?_)
    exact List.Subset.trans (List.subset_append_right _ _) (List.subset_append_left _ _)

/-- Every name that stands in a line of a statement is defined by a line of an earlier one. -/
def DefinedFirst (s : Script α) : Prop :=
  ∀ before st after, s.body = before ++ st :: after → ∀ n ∈ st.uses,
    (∃ l ∈ st.lines s.server, l.Mentions n) ∧
      ∃ l ∈ before.flatMap (Statement.lines s.server), l.Defines n

theorem Scoped.definedFirst {s : Script α} (h : Scoped [] s.body) : DefinedFirst s := by
  intro before st after hbody n hn
  rw [hbody] at h
  obtain ⟨st', hst', hdefines⟩ := List.mem_flatMap.mp (h.uses_subset hn)
  obtain ⟨l, hl, hline⟩ := Statement.exists_defines s.server hdefines
  exact ⟨st.exists_mentions s.server hn, l, List.mem_flatMap.mpr ⟨st', hst', hl⟩, hline⟩

/-- Whatever is played, a script names nothing that it has not defined on an earlier line. -/
theorem definedFirst_scriptOf (settings : Settings α) (p : Performance α) :
    DefinedFirst (scriptOf settings p).value := by
  refine Scoped.definedFirst ?_
  rw [body_scriptOf]
  exact scoped_assemble (sound_graphPlan p) (setUp_partPlans p) _ _ p

end Partitura.Script
