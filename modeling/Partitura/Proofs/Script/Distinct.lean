import Mathlib.Data.List.Flatten
import Mathlib.Data.List.Nodup
import Mathlib.Data.List.Pairwise
import Partitura.Number.Rational
import Partitura.Proofs.Script.Defined

/-!
# Which names are defined once

Names are handed out once, but what is written of them begins with what they stand for: a
symbol of an effect or a modulator can meet a name that was handed out with that beginning,
and a modulator can meet the bus of another one. Where ids are distinct, these are the only
ways in which a script defines a name twice.
-/

namespace Partitura.Script

/-! ## Texts of names -/

theorem text_eq_text {a b : Name} (h : a.text = b.text) :
    a = b ∨ (∃ name, a = .variable (.modulatorBus name) ∧
        b = .variable (.modulator ("bus_" ++ name))) ∨
      ∃ name, b = .variable (.modulatorBus name) ∧
        a = .variable (.modulator ("bus_" ++ name)) := by
  have hlist := congrArg String.toList h
  cases a with
  | symbol s =>
    cases b with
    | symbol t => simpa [Name.text, ← String.toList_inj] using hlist
    | «variable» v => cases v <;> simp [Name.text, Variable.text] at hlist
    | start => simp [Name.text] at hlist
  | start =>
    cases b with
    | symbol t => simp [Name.text] at hlist
    | «variable» v => cases v <;> simp [Name.text, Variable.text] at hlist
    | start => exact .inl rfl
  | «variable» v =>
    cases b with
    | symbol t => cases v <;> simp [Name.text, Variable.text] at hlist
    | start => cases v <;> simp [Name.text, Variable.text] at hlist
    | «variable» w =>
      -- Two kinds of variables begin alike only where `lfo_bus_` goes on from `lfo_`.
      cases v <;> cases w <;>
        simp [Name.text, Variable.text, ← String.toList_inj] at hlist ⊢ <;>
        first | exact hlist | exact ⟨_, rfl, hlist⟩ | exact ⟨_, rfl, hlist.symm⟩

theorem nodup_texts_iff {names : List Name} :
    (names.map Name.text).Nodup ↔ names.Nodup ∧ ∀ name, .variable (.modulatorBus name) ∈ names →
      .variable (.modulator ("bus_" ++ name)) ∉ names := by
  constructor
  · intro h
    refine ⟨h.of_map, fun name hbus hmodulator => ?_⟩
    have htext : (Name.variable (.modulatorBus name)).text =
        (Name.variable (.modulator ("bus_" ++ name))).text := by
      simp [Name.text, Variable.text, ← String.toList_inj]
    cases List.inj_on_of_nodup_map h hbus hmodulator htext
  · rintro ⟨h, hapart⟩
    refine (List.nodup_map_iff_inj_on h).mpr fun a ha b hb htext => ?_
    rcases text_eq_text htext with rfl | ⟨name, rfl, rfl⟩ | ⟨name, rfl, rfl⟩
    · rfl
    · exact absurd hb (hapart name ha)
    · exact absurd ha (hapart name hb)

theorem effectSymbol_ne_modulatorSymbol (name other : String) :
    effectSymbol name ≠ modulatorSymbol other := by
  intro h
  have hlist := congrArg String.toList h
  simp [effectSymbol, modulatorSymbol] at hlist

/-! ## Stages -/

def Name.stage : Name → Nat
  | symbol _ => 0
  | .variable (.bus _) => 1
  | .variable (.effect _) => 2
  | .variable (.modulatorBus _) | .variable (.modulator _) => 3
  | .variable (.group _) | .variable (.pattern _) => 4
  | start => 5
  | .variable (.player _) => 6

def InStages : Nat → List (List Name) → Prop
  | _, [] => True
  | k, names :: rest => (∀ n ∈ names, n.stage = k) ∧ InStages (k + 1) rest

theorem InStages.le_stage {k : Nat} {lists : List (List Name)} (h : InStages k lists)
    {n : Name} (hn : n ∈ lists.flatten) : k ≤ n.stage := by
  induction lists generalizing k with
  | nil => cases hn
  | cons names rest ih =>
    rcases List.mem_append.mp hn with hn | hn
    · exact Nat.le_of_eq (h.1 n hn).symm
    · exact Nat.le_of_succ_le (ih h.2 hn)

theorem InStages.mem {k i : Nat} {lists : List (List Name)} (h : InStages k lists)
    {n : Name} {names : List Name} (hn : n ∈ lists.flatten) (hnames : lists[i]? = some names)
    (hstage : n.stage = k + i) : n ∈ names := by
  induction lists generalizing k i with
  | nil => cases hn
  | cons first rest ih =>
    cases i with
    | zero =>
      cases hnames
      rcases List.mem_append.mp hn with hn | hn
      · exact hn
      · have hlater := h.2.le_stage hn
        omega
    | succ i =>
      rcases List.mem_append.mp hn with hn | hn
      · have hfirst := h.1 n hn
        omega
      · exact ih h.2 hn hnames (by omega)

theorem InStages.nodup {k : Nat} {lists : List (List Name)} (h : InStages k lists)
    (hnodup : ∀ names ∈ lists, names.Nodup) : lists.flatten.Nodup := by
  induction lists generalizing k with
  | nil => exact List.nodup_nil
  | cons names rest ih =>
    refine List.nodup_append'.mpr ⟨hnodup names List.mem_cons_self,
      ih h.2 fun later hlater => hnodup later (List.mem_cons_of_mem _ hlater), ?_⟩
    intro n hn hlater
    have hfirst := h.1 n hn
    have hstage := h.2.le_stage hlater
    omega

variable {α : Type} {graph : GraphPlan α} {parts : List (PartPlan α)}

/-! ## Names handed out -/

/-- The names of a graph and of its parts are handed out as distinct names. -/
structure HandedOut (graph : GraphPlan α) (parts : List (PartPlan α)) : Prop where
  ids : (graph.nodes.map NamedNode.id).Nodup
  names : (graph.nodes.map NamedNode.name).Nodup
  symbols : (parts.flatMap PartPlan.symbols).Nodup
  fresh : ∀ symbol ∈ parts.flatMap PartPlan.symbols, symbol ∉ graph.nodes.map NamedNode.name
  parts : (parts.map PartPlan.name).Nodup
  routed : (graph.destinations.map Prod.fst).Nodup

theorem ids_nameNodes {graph : List (GraphNode α)} {names : List String}
    (h : names.length = graph.length) :
    (nameNodes graph names).map NamedNode.id = graph.map GraphNode.id ∧
      (nameNodes graph names).map NamedNode.name = names := by
  unfold nameNodes
  rw [List.map_zipWith, List.map_zipWith, ← List.map_uncurry_zip_eq_zipWith,
    ← List.map_uncurry_zip_eq_zipWith]
  constructor
  · conv_rhs => rw [← List.map_fst_zip (Nat.le_of_eq h.symm), List.map_map]
    rfl
  · exact List.map_snd_zip (Nat.le_of_eq h)

theorem source_not_routed {nodes : List NamedNode} {routed : List (String × Outlet)}
    {r : Route} {outlet : Outlet} (h : routeOutlet nodes routed r = .ok outlet) :
    r.source ∉ routed.map Prod.fst := by
  unfold routeOutlet at h
  split at h
  · cases h
  · split at h
    · split at h
      · split at h
        · cases h
        · next hnew =>
          intro hmem
          obtain ⟨d, hd, hsource⟩ := List.mem_map.mp hmem
          exact hnew (List.any_eq_true.mpr ⟨d, hd, beq_iff_eq.mpr hsource⟩)
      · cases h
    · cases h

theorem nodup_routeNodes {nodes : List NamedNode} {routed : List (String × Outlet)}
    (routes : List (Route × Nat)) (h : (routed.map Prod.fst).Nodup) :
    ((routeNodes nodes routed routes).value.map Prod.fst).Nodup := by
  induction routes generalizing routed with
  | nil => exact h
  | cons first rest ih =>
    obtain ⟨r, i⟩ := first
    simp only [routeNodes]
    split
    · next outlet hroute =>
      refine ih ?_
      rw [List.map_append, List.map_singleton, ← List.concat_eq_append]
      exact h.concat (source_not_routed hroute)
    · exact ih h

/-! ## Symbols -/

/-- The symbols that are names as they were handed out: those of the nodes that patterns play,
and those of the parts. -/
def plainSymbols (graph : GraphPlan α) (parts : List (PartPlan α)) : List String :=
  (graph.nodes.filter fun n => isPlayed n.role).map NamedNode.name
    ++ parts.flatMap PartPlan.symbols

theorem eq_of_nodup_filterMap {β γ : Type} {f : β → Option γ} {items : List β} {x y : β} {z : γ}
    (h : (items.filterMap f).Nodup) (hx : x ∈ items) (hy : y ∈ items) (hfx : f x = some z)
    (hfy : f y = some z) : x = y := by
  have hpairwise := List.pairwise_filterMap.mp h
  have hsymm : Std.Symm fun a a' : β => ∀ b, f a = some b → ∀ b', f a' = some b' → b ≠ b' :=
    ⟨fun _ _ hne b hb b' hb' heq => hne b' hb' b hb heq.symm⟩
  by_contra hne
  exact hpairwise.forall hx hy hne z hfx z hfy rfl

/-- No symbol of an effect or of a modulator is a name that was handed out. -/
structure SymbolsApart (graph : GraphPlan α) (parts : List (PartPlan α)) : Prop where
  effects : ∀ name, HasNode graph.nodes .effect name →
    effectSymbol name ∉ plainSymbols graph parts
  modulators : ∀ name, HasNode graph.nodes .modulator name →
    modulatorSymbol name ∉ plainSymbols graph parts

theorem HandedOut.nodup_nodeSymbols (handed : HandedOut graph parts)
    (h : SymbolsApart graph parts) : (graph.nodes.filterMap NamedNode.symbol?).Nodup := by
  have hplayed {n : NamedNode} (hn : n ∈ graph.nodes) (hrole : isPlayed n.role) :
      n.name ∈ plainSymbols graph parts :=
    List.mem_append_left _ (List.mem_map_of_mem (List.mem_filter.mpr ⟨hn, hrole⟩))
  refine List.pairwise_filterMap.mpr ((List.pairwise_map.mp handed.names).imp_of_mem ?_)
  intro n m hn hm hne symbol hsymbol symbol' hsymbol' heq
  subst heq
  rcases symbol?_cases hsymbol with ⟨hrole, hs⟩ | ⟨hrole, hs⟩ | ⟨hrole, hs⟩ <;>
    rcases symbol?_cases hsymbol' with ⟨hrole', hs'⟩ | ⟨hrole', hs'⟩ | ⟨hrole', hs'⟩
  · exact hne (hs.symm.trans hs')
  · exact h.effects m.name ⟨m, hm, hrole', rfl⟩ (hs' ▸ hs ▸ hplayed hn hrole)
  · exact h.modulators m.name ⟨m, hm, hrole', rfl⟩ (hs' ▸ hs ▸ hplayed hn hrole)
  · exact h.effects n.name ⟨n, hn, hrole, rfl⟩ (hs ▸ hs' ▸ hplayed hm hrole')
  · exact hne (effectSymbol_injective (hs.symm.trans hs'))
  · exact effectSymbol_ne_modulatorSymbol _ _ (hs.symm.trans hs')
  · exact h.modulators n.name ⟨n, hn, hrole, rfl⟩ (hs ▸ hs' ▸ hplayed hm hrole')
  · exact effectSymbol_ne_modulatorSymbol _ _ (hs'.symm.trans hs)
  · exact hne ((String.append_right_inj _).mp (hs.symm.trans hs'))

/-- The symbols are distinct just if those that begin with what they stand for are apart from
the others. -/
theorem nodup_symbolsOf_iff (hgraph : graph.Sound) (handed : HandedOut graph parts) :
    (symbolsOf graph parts).Nodup ↔ SymbolsApart graph parts := by
  rw [symbolsOf, hgraph.definitions]
  constructor
  · intro hnodup
    obtain ⟨hnodes, -, hapart⟩ := List.nodup_append'.mp hnodup
    have hplain {n : NamedNode} {symbol : String} (hn : n ∈ graph.nodes)
        (hplayed : ¬isPlayed n.role) (hsymbol : n.symbol? = some symbol) :
        symbol ∉ plainSymbols graph parts := by
      intro hmem
      rcases List.mem_append.mp hmem with hmem | hmem
      · obtain ⟨m, hm, rfl⟩ := List.mem_map.mp hmem
        obtain ⟨hm, hrole⟩ := List.mem_filter.mp hm
        have heq := eq_of_nodup_filterMap hnodes hn hm hsymbol (symbol?_of_isPlayed hrole)
        exact hplayed (heq ▸ hrole)
      · exact hapart (List.mem_filterMap.mpr ⟨n, hn, hsymbol⟩) hmem
    constructor
    · rintro name ⟨n, hn, hrole, rfl⟩
      exact hplain hn (by simp [hrole, isPlayed]) (by simp [NamedNode.symbol?, hrole])
    · rintro name ⟨n, hn, hrole, rfl⟩
      exact hplain hn (by simp [hrole, isPlayed]) (by simp [NamedNode.symbol?, hrole])
  · intro h
    refine List.nodup_append'.mpr ⟨handed.nodup_nodeSymbols h, handed.symbols, ?_⟩
    intro symbol hsymbol hpart
    have hplain : symbol ∈ plainSymbols graph parts := List.mem_append_right _ hpart
    obtain ⟨n, hn, hsymbol⟩ := List.mem_filterMap.mp hsymbol
    rcases symbol?_cases hsymbol with ⟨-, rfl⟩ | ⟨hrole, rfl⟩ | ⟨hrole, rfl⟩
    · exact handed.fresh n.name hpart (List.mem_map_of_mem hn)
    · exact h.effects n.name ⟨n, hn, hrole, rfl⟩ hplain
    · exact h.modulators n.name ⟨n, hn, hrole, rfl⟩ hplain

/-! ## Variables -/

def PartPlan.links (plan : PartPlan α) : List String :=
  plan.buses.filterMap fun st =>
    match st with
    | .audioBus name => some name
    | _ => none

theorem defines_wire (outlet : Outlet) (links : List String) :
    (wire outlet links).flatMap (Statement.defines (α := α)) =
      links.map fun link => .variable (.effect link) := by
  induction links with
  | nil => rfl
  | cons link rest ih =>
    cases rest with
    | nil => rfl
    | cons next others => exact congrArg (.variable (.effect link) :: ·) ih

structure PartPlan.Linked (plan : PartPlan α) : Prop where
  buses : plan.buses.flatMap Statement.defines =
    plan.links.map fun link => .variable (.bus link)
  effects : plan.effects.flatMap Statement.defines =
    plan.links.map fun link => .variable (.effect link)
  symbols : (plan.links.map effectSymbol).Sublist plan.symbols

theorem AllSetUp.linked (hparts : AllSetUp graph parts) : ∀ plan ∈ parts, plan.Linked := by
  intro plan hplan
  obtain ⟨own, links, outlet, hsetUp⟩ := hparts plan hplan
  have hlinks : plan.links = links := by
    rw [PartPlan.links, hsetUp.buses, List.filterMap_map]
    exact List.filterMap_some
  rw [← hlinks] at hsetUp
  obtain ⟨skipped, heffects⟩ := hsetUp.effects
  refine ⟨?_, ?_, ?_⟩
  · rw [hsetUp.buses, List.flatMap_map, List.map_eq_flatMap]
    rfl
  · have hskipped : (skipped.map skippedComment).flatMap (Statement.defines (α := α)) = [] := by
      simp [skippedComment, Statement.defines]
    rw [heffects, List.flatMap_append, hskipped, List.nil_append, defines_wire]
  · rw [PartPlan.symbols, hsetUp.definitions]
    exact List.sublist_append_right _ _

def linksOf (parts : List (PartPlan α)) : List String := parts.flatMap PartPlan.links

theorem defines_partBuses (hparts : AllSetUp graph parts) :
    (parts.flatMap PartPlan.buses).flatMap Statement.defines =
      (linksOf parts).map fun link => .variable (.bus link) := by
  rw [linksOf, List.flatMap_assoc, List.map_flatMap]
  exact List.flatMap_congr fun plan hplan => (hparts.linked plan hplan).buses

theorem defines_partEffects (hparts : AllSetUp graph parts) :
    (parts.flatMap PartPlan.effects).flatMap Statement.defines =
      (linksOf parts).map fun link => .variable (.effect link) := by
  rw [linksOf, List.flatMap_assoc, List.map_flatMap]
  exact List.flatMap_congr fun plan hplan => (hparts.linked plan hplan).effects

theorem linksOf_sublist (hparts : AllSetUp graph parts) :
    ((linksOf parts).map effectSymbol).Sublist (parts.flatMap PartPlan.symbols) := by
  rw [linksOf, List.map_flatMap]
  exact List.Sublist.flatMap_right _ fun plan hplan => (hparts.linked plan hplan).symbols

def runningIds (nodes : List NamedNode) (routed : List (String × Outlet)) : List String :=
  routed.map Prod.fst
    ++ (nodes.filter fun n => !routed.any fun d => d.1 == n.id).map NamedNode.id

theorem defines_effectSynths (nodes : List NamedNode) (routed : List (String × Outlet)) :
    (effectSynths nodes routed).flatMap (Statement.defines (α := α)) =
      ((runningIds nodes routed).filterMap (effectName? nodes)).map
        fun name => .variable (.effect name) := by
  have hsynths {β : Type} (items : List β) (id : β → String) (outlet : β → Outlet) :
      (items.filterMap fun x => effectSynth? (α := α) nodes (id x) (outlet x)).flatMap
          Statement.defines =
        ((items.map id).filterMap (effectName? nodes)).map fun name =>
          .variable (.effect name) := by
    induction items with
    | nil => rfl
    | cons x rest ih =>
      rw [List.map_cons, List.filterMap_cons, List.filterMap_cons, effectSynth?_eq]
      cases effectName? nodes (id x) with
      | none => exact ih
      | some name => exact congrArg (.variable (.effect name) :: ·) ih
  rw [effectSynths, List.flatMap_append, runningIds, List.filterMap_append, List.map_append]
  congr 1
  · exact hsynths routed Prod.fst Prod.snd
  · exact hsynths _ NamedNode.id fun _ => .hardware

theorem HandedOut.nodup_runningIds (handed : HandedOut graph parts) :
    (runningIds graph.nodes graph.destinations).Nodup := by
  refine List.nodup_append'.mpr ⟨handed.routed, handed.ids.sublist (List.filter_sublist.map _), ?_⟩
  intro id hrouted hid
  -- A node that is routed is not among the others.
  obtain ⟨d, hd, rfl⟩ := List.mem_map.mp hrouted
  obtain ⟨n, hn, hsame⟩ := List.mem_map.mp hid
  have hnot := (List.mem_filter.mp hn).2
  rw [Bool.not_eq_true', List.any_eq_false] at hnot
  exact hnot d hd (beq_iff_eq.mpr hsame.symm)

theorem HandedOut.nodup_running (handed : HandedOut graph parts) :
    ((runningIds graph.nodes graph.destinations).filterMap (effectName? graph.nodes)).Nodup := by
  refine List.pairwise_filterMap.mpr (handed.nodup_runningIds.imp ?_)
  intro id id' hne name hname name' hname' heq
  obtain ⟨n, hn, rfl, -, hnamed⟩ := effectName?_eq_some hname
  obtain ⟨m, hm, rfl, -, hnamed'⟩ := effectName?_eq_some hname'
  have hsame := List.inj_on_of_nodup_map handed.names hn hm (by rw [hnamed, hnamed', heq])
  exact hne (congrArg NamedNode.id hsame)

/-! ## Stages of a script -/

theorem HandedOut.nodup_links (handed : HandedOut graph parts) (hparts : AllSetUp graph parts) :
    (linksOf parts).Nodup :=
  List.Nodup.of_map effectSymbol (handed.symbols.sublist (linksOf_sublist hparts))

theorem SymbolsApart.not_mem_linksOf (h : SymbolsApart graph parts)
    (hparts : AllSetUp graph parts) {name : String}
    (hname : HasNode graph.nodes .effect name) : name ∉ linksOf parts := by
  intro hlink
  have hsymbol := (linksOf_sublist hparts).subset (List.mem_map_of_mem hlink)
  exact h.effects name hname (List.mem_append_right _ hsymbol)

theorem defines_busStatements (hgraph : graph.Sound) (hparts : AllSetUp graph parts) :
    (busStatements graph parts).flatMap Statement.defines =
      ((graph.nodes.filter fun n => n.role == .effect).map NamedNode.name
        ++ linksOf parts).map fun name => .variable (.bus name) := by
  have hbuses : graph.buses.flatMap Statement.defines =
      ((graph.nodes.filter fun n => n.role == .effect).map NamedNode.name).map
        fun name => .variable (.bus name) := by
    rw [hgraph.buses, List.flatMap_map, List.map_map, List.map_eq_flatMap]
    rfl
  rw [busStatements, List.flatMap_append, hbuses, defines_partBuses hparts, ← List.map_append]

theorem nodup_busStatements (hgraph : graph.Sound) (hparts : AllSetUp graph parts)
    (handed : HandedOut graph parts) (h : SymbolsApart graph parts) :
    ((busStatements graph parts).flatMap Statement.defines).Nodup := by
  rw [defines_busStatements hgraph hparts]
  refine List.Nodup.map (fun _ _ heq => by simpa using heq) (List.nodup_append'.mpr
    ⟨handed.names.sublist (List.filter_sublist.map _), handed.nodup_links hparts, ?_⟩)
  intro name hname hlink
  obtain ⟨n, hn, rfl⟩ := List.mem_map.mp hname
  obtain ⟨hn, hrole⟩ := List.mem_filter.mp hn
  exact h.not_mem_linksOf hparts ⟨n, hn, beq_iff_eq.mp hrole, rfl⟩ hlink

theorem defines_effectStatements (hgraph : graph.Sound) (hparts : AllSetUp graph parts) :
    (effectStatements graph parts).flatMap Statement.defines =
      (linksOf parts
        ++ (runningIds graph.nodes graph.destinations).filterMap (effectName? graph.nodes)).map
          fun name => .variable (.effect name) := by
  rw [effectStatements, List.flatMap_append, hgraph.effects, defines_partEffects hparts,
    defines_effectSynths, ← List.map_append]

theorem nodup_effectStatements (hgraph : graph.Sound) (hparts : AllSetUp graph parts)
    (handed : HandedOut graph parts) (h : SymbolsApart graph parts) :
    ((effectStatements graph parts).flatMap Statement.defines).Nodup := by
  rw [defines_effectStatements hgraph hparts]
  refine List.Nodup.map (fun _ _ heq => by simpa using heq) (List.nodup_append'.mpr
    ⟨handed.nodup_links hparts, handed.nodup_running, ?_⟩)
  intro name hlink hname
  obtain ⟨id, -, hid⟩ := List.mem_filterMap.mp hname
  obtain ⟨n, hn, -, hrole, rfl⟩ := effectName?_eq_some hid
  exact h.not_mem_linksOf hparts ⟨n, hn, hrole, rfl⟩ hlink

def modulated (graph : GraphPlan α) : List Name :=
  graph.modulators.flatMap Statement.defines

theorem modulated_eq (hgraph : graph.Sound) :
    modulated graph = (graph.nodes.filter fun n => n.role == .modulator).flatMap fun n =>
      [.variable (.modulatorBus n.name), .variable (.modulator n.name)] := by
  obtain ⟨maps, hmodulators, hmaps⟩ := hgraph.modulators
  have hnone : maps.flatMap Statement.defines = [] := by
    refine List.flatMap_eq_nil_iff.mpr fun st hst => ?_
    obtain ⟨id, n, control, source, -, -, -, rfl⟩ := hmaps st hst
    rfl
  rw [modulated, hmodulators, List.flatMap_append, hnone, List.append_nil]
  induction graph.nodes with
  | nil => rfl
  | cons n rest ih =>
    rw [List.flatMap_cons, List.flatMap_append, ih]
    by_cases hrole : n.role = .modulator
    · simp [modulatorStatements, hrole, Statement.defines]
    · simp [modulatorStatements, hrole]

theorem nodup_modulated (hgraph : graph.Sound) (handed : HandedOut graph parts) :
    (modulated graph).Nodup := by
  rw [modulated_eq hgraph]
  refine List.nodup_flatMap.mpr ⟨fun n _ => by simp, ?_⟩
  refine ((List.pairwise_map.mp handed.names).filter _).imp ?_
  intro n m hne
  simp [Function.onFun, List.disjoint_left, hne]

theorem mem_modulated (hgraph : graph.Sound) {n : Name} :
    n ∈ modulated graph ↔ ∃ name, HasNode graph.nodes .modulator name ∧
      (n = .variable (.modulatorBus name) ∨ n = .variable (.modulator name)) := by
  rw [modulated_eq hgraph, List.mem_flatMap]
  constructor
  · rintro ⟨m, hm, hn⟩
    obtain ⟨hm, hrole⟩ := List.mem_filter.mp hm
    exact ⟨m.name, ⟨m, hm, beq_iff_eq.mp hrole, rfl⟩, by simpa using hn⟩
  · rintro ⟨name, ⟨m, hm, hrole, rfl⟩, hn⟩
    exact ⟨m, List.mem_filter.mpr ⟨hm, beq_iff_eq.mpr hrole⟩, by simpa using hn⟩

theorem patterned_eq (hparts : AllSetUp graph parts) :
    patterned parts = (parts.filter fun plan => plan.pattern.isSome).flatMap fun plan =>
      [.variable (.group plan.name), .variable (.pattern plan.name)] := by
  rw [patterned]
  induction parts with
  | nil => rfl
  | cons plan rest ih =>
    rw [List.flatMap_cons, List.flatMap_append,
      ih fun later hlater => hparts later (List.mem_cons_of_mem _ hlater)]
    obtain ⟨own, links, outlet, hsetUp⟩ := hparts plan List.mem_cons_self
    cases hpattern : plan.pattern with
    | none => simp [PartPlan.statements, hpattern, Statement.defines]
    | some pattern =>
      have hname := (hsetUp.pattern pattern hpattern).1
      simp [PartPlan.statements, hpattern, Statement.defines, hname]

theorem nodup_patterned (hparts : AllSetUp graph parts) (handed : HandedOut graph parts) :
    (patterned parts).Nodup := by
  rw [patterned_eq hparts]
  refine List.nodup_flatMap.mpr ⟨fun plan _ => by simp, ?_⟩
  refine ((List.pairwise_map.mp handed.parts).filter _).imp ?_
  intro plan later hne
  simp [Function.onFun, List.disjoint_left, hne]

theorem defines_playStatements (parts : List (PartPlan α)) (grid : α) :
    (playStatements parts grid).flatMap Statement.defines =
      (parts.filter fun plan => plan.pattern.isSome).map fun plan =>
        .variable (.player plan.name) := by
  rw [playStatements, List.flatMap_map, List.map_eq_flatMap]
  rfl

theorem nodup_playStatements (handed : HandedOut graph parts) (grid : α) :
    ((playStatements parts grid).flatMap Statement.defines).Nodup := by
  have hnames : ((parts.filter fun plan => plan.pattern.isSome).map PartPlan.name).Nodup :=
    handed.parts.sublist (List.filter_sublist.map _)
  rw [defines_playStatements]
  refine (List.pairwise_map.mp hnames).map _ ?_
  intro plan later hne heq
  simp at heq
  exact hne heq

variable [Scalar α]

def timed (p : Performance α) (graph : GraphPlan α) (parts : List (PartPlan α)) (grid : α) :
    List Name :=
  (timeline p graph parts grid).value.flatMap Statement.defines

theorem timed_cases (p : Performance α) (graph : GraphPlan α) (parts : List (PartPlan α))
    (grid : α) : timed p graph parts grid = [] ∨ timed p graph parts grid = [.start] := by
  have hremarks : (p.remarks.map (remarkComment p.tempo)).flatMap Statement.defines = [] := by
    simp [remarkComment, Statement.defines]
  have hscheduled : ((changesOf p graph parts).map fun e =>
      Statement.schedule e.1 e.2).flatMap Statement.defines = [] := by
    refine List.flatMap_eq_nil_iff.mpr fun st hst => ?_
    obtain ⟨e, -, rfl⟩ := List.mem_map.mp hst
    rfl
  rw [timed, value_timeline, List.flatMap_append, hremarks, List.nil_append]
  split
  · exact .inl rfl
  · rw [List.flatMap_cons, hscheduled]
    exact .inr rfl

def stages (bpm grid : α) (p : Performance α) (graph : GraphPlan α)
    (parts : List (PartPlan α)) : List (List Name) :=
  [defined bpm graph parts, (busStatements graph parts).flatMap Statement.defines,
    (effectStatements graph parts).flatMap Statement.defines, modulated graph, patterned parts,
    timed p graph parts grid, (playStatements parts grid).flatMap Statement.defines]

theorem defines_assemble (bpm grid : α) (p : Performance α) (graph : GraphPlan α)
    (parts : List (PartPlan α)) :
    (assemble bpm grid graph parts (timeline p graph parts grid).value).flatMap
      Statement.defines = (stages bpm grid p graph parts).flatten := by
  have htitle : ([.blank, .comment "Patterns"] : List (Statement α)).flatMap Statement.defines =
    [] := rfl
  rw [assemble_eq]
  simp only [List.flatMap_append, defines_titled, routingStatements_eq, htitle, List.nil_append,
    List.append_assoc]
  simp [stages, defined, modulated, patterned, timed]

theorem inStages (hgraph : graph.Sound) (hparts : AllSetUp graph parts) (bpm grid : α)
    (p : Performance α) : InStages 0 (stages bpm grid p graph parts) := by
  refine ⟨?_, ?_, ?_, ?_, ?_, ?_, ?_, trivial⟩
  · intro n hn
    obtain ⟨symbol, -, rfl⟩ := List.mem_map.mp ((perm_defined bpm graph parts).mem_iff.mp hn)
    rfl
  · intro n hn
    rw [defines_busStatements hgraph hparts] at hn
    obtain ⟨name, -, rfl⟩ := List.mem_map.mp hn
    rfl
  · intro n hn
    rw [defines_effectStatements hgraph hparts] at hn
    obtain ⟨name, -, rfl⟩ := List.mem_map.mp hn
    rfl
  · intro n hn
    obtain ⟨name, -, rfl | rfl⟩ := (mem_modulated hgraph).mp hn <;> rfl
  · intro n hn
    rw [patterned_eq hparts] at hn
    obtain ⟨plan, -, hn⟩ := List.mem_flatMap.mp hn
    rcases List.mem_cons.mp hn with rfl | hn
    · rfl
    · rw [List.mem_singleton.mp hn]
      rfl
  · intro n hn
    rcases timed_cases p graph parts grid with htimed | htimed <;> rw [htimed] at hn
    · cases hn
    · rw [List.mem_singleton.mp hn]
      rfl
  · intro n hn
    rw [defines_playStatements] at hn
    obtain ⟨plan, -, rfl⟩ := List.mem_map.mp hn
    rfl

theorem handedOut (p : Performance α) (hids : (p.graph.map GraphNode.id).Nodup) :
    HandedOut (graphPlan p) (partPlans p) := by
  have hlength : (nodeNames p).length = p.graph.length := by
    rw [nodeNames, Names.length_getAll, List.length_map]
  have hnodes := Names.handsOut_getAll .empty hids nofun
  obtain ⟨hnodeIds, hnodeNames⟩ := ids_nameNodes hlength
  obtain ⟨names', hparts⟩ := handsOut_planParts (sound_graphPlan p) p
    (Names.empty.getAll (p.graph.map GraphNode.id)).2 0 (p.parts.zip (partNames p))
  have hpartLength : (partNames p).length = p.parts.length := by
    rw [partNames, Names.length_freshAll, List.length_map]
  refine ⟨?_, ?_, hparts.distinct, ?_, ?_, nodup_routeNodes _ List.nodup_nil⟩
  · rw [nodes_graphPlan, hnodeIds]
    exact hids
  · rw [nodes_graphPlan, hnodeNames]
    exact hnodes.distinct
  · intro symbol hsymbol hname
    rw [nodes_graphPlan, hnodeNames] at hname
    refine hparts.new symbol hsymbol ?_
    rw [hnodes.taken]
    exact List.mem_append_left _ (List.mem_reverse.mpr hname)
  · rw [partPlans, names_planParts (sound_graphPlan p)]
    rw [List.map_snd_zip (Nat.le_of_eq hpartLength)]
    exact (Names.handsOut_freshAll .empty _).distinct

/-! ## Scripts -/

/-- No two names of a graph and of its parts are written alike: the symbols are apart, and so
are the buses of modulators and the modulators themselves. -/
structure NamesApart (graph : GraphPlan α) (parts : List (PartPlan α)) : Prop
    extends SymbolsApart graph parts where
  buses : ∀ name, HasNode graph.nodes .modulator name →
    ¬HasNode graph.nodes .modulator ("bus_" ++ name)

/-- A script defines every name that it writes just once. -/
def DefinedOnce (s : Script α) : Prop :=
  ((s.body.flatMap Statement.defines).map Name.text).Nodup

instance (s : Script α) : Decidable (DefinedOnce s) :=
  inferInstanceAs (Decidable (List.Nodup _))

theorem nodup_stages_iff (hgraph : graph.Sound) (hparts : AllSetUp graph parts)
    (handed : HandedOut graph parts) (bpm grid : α) (p : Performance α) :
    (stages bpm grid p graph parts).flatten.Nodup ↔ SymbolsApart graph parts := by
  have hsymbols : (defined bpm graph parts).Nodup ↔ SymbolsApart graph parts := by
    rw [(perm_defined bpm graph parts).nodup_iff, ← nodup_symbolsOf_iff hgraph handed]
    exact List.nodup_map_iff fun _ _ heq => by simpa using heq
  constructor
  · exact fun h => hsymbols.mp (List.nodup_append'.mp h).1
  · intro h
    refine (inStages hgraph hparts bpm grid p).nodup fun names hnames => ?_
    simp only [stages, List.mem_cons, List.not_mem_nil, or_false] at hnames
    rcases hnames with rfl | rfl | rfl | rfl | rfl | rfl | rfl
    · exact hsymbols.mpr h
    · exact nodup_busStatements hgraph hparts handed h
    · exact nodup_effectStatements hgraph hparts handed h
    · exact nodup_modulated hgraph handed
    · exact nodup_patterned hparts handed
    · rcases timed_cases p graph parts grid with htimed | htimed <;> simp [htimed]
    · exact nodup_playStatements handed grid

theorem mem_stages_iff (hgraph : graph.Sound) (hparts : AllSetUp graph parts) (bpm grid : α)
    (p : Performance α) {n : Name} (hn : n.stage = 3) :
    n ∈ (stages bpm grid p graph parts).flatten ↔ n ∈ modulated graph := by
  constructor
  · exact fun h => (inStages hgraph hparts bpm grid p).mem (i := 3) h rfl (by rw [hn])
  · exact fun h => List.mem_flatten.mpr ⟨modulated graph, by simp [stages], h⟩

/-- Where ids are distinct, a script defines its names once just if names are apart. -/
theorem definedOnce_iff (settings : Settings α) (p : Performance α)
    (hids : (p.graph.map GraphNode.id).Nodup) :
    DefinedOnce (scriptOf settings p).value ↔ NamesApart (graphPlan p) (partPlans p) := by
  have hgraph := sound_graphPlan p
  have hparts := setUp_partPlans p
  have hbus (name : String) := mem_stages_iff hgraph hparts p.tempo.initialTempo
    (gridOf settings p) p (n := .variable (.modulatorBus name)) rfl
  have hmodulator (name : String) := mem_stages_iff hgraph hparts p.tempo.initialTempo
    (gridOf settings p) p (n := .variable (.modulator name)) rfl
  -- Two names with one text are both of the stage of modulators, so they stand there.
  rw [DefinedOnce, body_scriptOf, defines_assemble, nodup_texts_iff,
    nodup_stages_iff hgraph hparts (handedOut p hids)]
  simp only [hbus, hmodulator, mem_modulated hgraph]
  constructor
  · rintro ⟨hsymbols, hapart⟩
    refine ⟨hsymbols, fun name hname hmet => ?_⟩
    exact hapart name ⟨name, hname, .inl rfl⟩ ⟨_, hmet, .inr rfl⟩
  · rintro ⟨hsymbols, hapart⟩
    refine ⟨hsymbols, ?_⟩
    rintro name ⟨_, hname, heq | heq⟩ ⟨_, hmet, heq' | heq'⟩ <;> cases heq
    · cases heq'
    · cases heq'
      exact hapart name hname hmet

theorem definedOnce_iff_song :
    let lead : PlayedPart Rat := ⟨"lead", ⟨some "lead", .synth, []⟩,
      [⟨none, .delay, []⟩, ⟨none, .delay, []⟩], [], .once, none⟩
    let song : Performance Rat := ⟨formatName, formatVersion, 120, .common, none, .constant 120,
      [], [], ⟨none, none, none⟩, [⟨"lead", .synth, [], none, none⟩,
        ⟨"room", .reverb, [], none, none⟩, ⟨"wave", .lfo, [], some "room.wet", none⟩],
      [⟨"lead", "room"⟩, ⟨"room", "master"⟩], [lead, lead], [], [], []⟩
    (song.graph.map GraphNode.id).Nodup ∧ DefinedOnce (scriptOf .standard song).value ∧
      NamesApart (graphPlan song) (partPlans song) := by
  intro lead song
  have hids : (song.graph.map GraphNode.id).Nodup := by decide
  have honce : DefinedOnce (scriptOf .standard song).value := by decide +kernel
  exact ⟨hids, honce, (definedOnce_iff .standard song hids).mp honce⟩

/-- An effect of a part meets a node that has its name: the names of nodes and of parts are
apart, but the symbol of the node is not. -/
theorem not_definedOnce_song :
    let lead : PlayedPart Rat :=
      ⟨"lead", ⟨some "lead", .synth, []⟩, [⟨none, .delay, []⟩], [], .once, none⟩
    let song : Performance Rat := ⟨formatName, formatVersion, 120, .common, none, .constant 120,
      [], [], ⟨none, none, none⟩,
      [⟨"lead", .synth, [], none, none⟩, ⟨"lead_0", .reverb, [], none, none⟩],
      [⟨"lead", "lead_0"⟩, ⟨"lead_0", "master"⟩], [lead], [], [], []⟩
    (song.graph.map GraphNode.id).Nodup ∧ ¬DefinedOnce (scriptOf .standard song).value := by
  decide +kernel

end Partitura.Script
