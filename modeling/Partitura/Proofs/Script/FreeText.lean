import Mathlib
import Partitura.Proofs.Script.Defined

/-!
# What a script makes of free texts

Titles, names of authors, descriptions, remarks, labels and the names of unknown devices are
free texts. A script takes identifiers from the labels, and beyond these its statements are the
same whatever the free texts are, but for what its comments say.
-/

namespace Partitura

variable {α : Type}

def DeviceKind.nameless : DeviceKind → DeviceKind
  | unknown _ => unnamed
  | kind => kind

/-- The kind in a place for kinds of one role, where all others are alike unsupported. -/
def DeviceKind.asOnly (role : DeviceRole) (kind : DeviceKind) : DeviceKind :=
  if kind.role = role then kind else unnamed

def GraphNode.withoutTexts (n : GraphNode α) : GraphNode α := { n with kind := n.kind.nameless }

def PlacedDevice.asOnly (role : DeviceRole) (d : PlacedDevice α) : PlacedDevice α :=
  { d with kind := d.kind.asOnly role }

def PlayedPart.withoutTexts (part : PlayedPart α) : PlayedPart α :=
  { part with
    label := Script.identifier part.label
    instrument := part.instrument.asOnly .instrument
    effects := part.effects.map (PlacedDevice.asOnly .effect) }

/-- A performance without its free texts. The identifiers of labels are left. -/
def Performance.withoutTexts (p : Performance α) : Performance α :=
  { p with
    format := ""
    version := ""
    metadata := .none
    graph := p.graph.map GraphNode.withoutTexts
    parts := p.parts.map PlayedPart.withoutTexts
    remarks := p.remarks.map fun r => { r with text := "" }
    diagnostics := [] }

namespace Script

/-! ## Identifiers -/

/-- A text that begins with a small letter and goes on with letters, digits and underscores
is its own identifier. -/
theorem identifier_ofList {c : Char} {rest : List Char} (hc : c.isLower = true)
    (hrest : identifierChars rest = rest) :
    identifier (String.ofList (c :: rest)) = String.ofList (c :: rest) := by
  have halpha : c.isAlphanum = true := by
    show (c.isUpper || c.isLower || c.isDigit) = true
    rw [hc, Bool.or_true, Bool.true_or]
  have hchars : identifierChars (c :: rest) = c :: rest := by
    rw [identifierChars, List.map_cons, if_pos halpha]
    exact congrArg (c :: ·) hrest
  rw [identifier, String.toList_ofList, hchars]
  dsimp only
  rw [if_neg (Char.not_isUpper_of_isLower hc), if_pos hc]

theorem identifierChars_identifierChars (cs : List Char) :
    identifierChars (identifierChars cs) = identifierChars cs := by
  rw [identifierChars, identifierChars, List.map_map]
  refine List.map_congr_left fun c _ => ?_
  by_cases hc : c.isAlphanum = true
  · simp [hc]
  · have hunderscore : Char.isAlphanum '_' = false := by decide
    simp [hc, hunderscore]

theorem identifier_identifier (raw : String) : identifier (identifier raw) = identifier raw := by
  have hchars := identifierChars_identifierChars raw.toList
  rw [identifier.eq_def raw]
  cases hraw : identifierChars raw.toList with
  | nil => exact identifier_ofList (c := 'x') (by decide) rfl
  | cons c rest =>
    rw [hraw] at hchars
    have hrest : identifierChars rest = rest := (List.cons.inj hchars).2
    dsimp only
    split
    · next hupper =>
      have halpha : c.isAlpha = true := Bool.or_eq_true_iff.mpr (.inl hupper)
      exact identifier_ofList (c.isLower_toLower_eq_isAlpha.trans halpha) hrest
    · split
      · next hlower => exact identifier_ofList hlower hrest
      · exact identifier_ofList (c := 'n') (by decide) hchars

namespace Names

theorem fresh_identifier (names : Names) (raw : String) :
    names.fresh (identifier raw) = names.fresh raw := by
  unfold fresh
  rw [identifier_identifier]

theorem freshAll_identifier (names : Names) (raws : List String) :
    names.freshAll (raws.map identifier) = names.freshAll raws := by
  induction raws generalizing names with
  | nil => rfl
  | cons raw rest ih => simp only [List.map_cons, freshAll, fresh_identifier, ih]

end Names

/-! ## Comments -/

def Statement.hushed : Statement α → Statement α
  | comment _ => comment ""
  | st => st

def PartPlan.hushed (plan : PartPlan α) : PartPlan α :=
  { plan with label := "", effects := plan.effects.map Statement.hushed }

def Chain.hushed (chain : Chain α) : Chain α :=
  { chain with skipped := chain.skipped.map fun _ => "" }

@[simp] theorem hushed_hushed (st : Statement α) : st.hushed.hushed = st.hushed := by
  cases st <;> rfl

theorem hushed_skippedComments (skipped : List String) :
    (skipped.map (skippedComment (α := α))).map Statement.hushed =
      (skipped.map fun _ => "").map .comment := by
  rw [List.map_map, List.map_map]
  rfl

theorem hushed_titled (title : String) (statements : List (Statement α)) :
    (titled title statements).map Statement.hushed =
      titled "" (statements.map Statement.hushed) := by
  cases statements <;> rfl

theorem hushed_statements (plan : PartPlan α) :
    plan.hushed.statements.map Statement.hushed = plan.statements.map Statement.hushed := by
  unfold PartPlan.statements PartPlan.hushed
  cases plan.pattern <;> rfl

theorem receivers_hushed (graph : GraphPlan α) (parts : List (PartPlan α)) (id : Option String) :
    receivers graph (parts.map PartPlan.hushed) id = receivers graph parts id := by
  have hgroups (id : String) : ((parts.map PartPlan.hushed).filter fun part =>
      part.pattern.isSome && part.node == some id).map (fun part => Receiver.variable
        (.group part.name)) = (parts.filter fun part =>
      part.pattern.isSome && part.node == some id).map fun part => .variable
        (.group part.name) := by
    rw [List.filter_map, List.map_map]
    rfl
  cases id with
  | none => rfl
  | some id => simp only [receivers, hgroups]

theorem hushed_routingStatements (graph : GraphPlan α) (parts : List (PartPlan α)) :
    (routingStatements graph (parts.map PartPlan.hushed)).map Statement.hushed =
      (routingStatements graph parts).map Statement.hushed := by
  have heffects : ((parts.map PartPlan.hushed).flatMap PartPlan.effects).map Statement.hushed =
      (parts.flatMap PartPlan.effects).map Statement.hushed := by
    rw [List.flatMap_map, List.map_flatMap, List.map_flatMap]
    refine List.flatMap_congr fun plan _ => ?_
    simp [PartPlan.hushed]
  have hbuses : (parts.map PartPlan.hushed).flatMap PartPlan.buses =
      parts.flatMap PartPlan.buses := List.flatMap_map ..
  simp only [routingStatements, List.map_append, heffects, hbuses]

/-- What a script is put together from counts but for what comments say. -/
theorem hushed_assemble (bpm grid : α) (graph : GraphPlan α) {parts parts' : List (PartPlan α)}
    {timeline timeline' : List (Statement α)}
    (hparts : parts'.map PartPlan.hushed = parts.map PartPlan.hushed)
    (htimeline : timeline'.map Statement.hushed = timeline.map Statement.hushed) :
    (assemble bpm grid graph parts' timeline').map Statement.hushed =
      (assemble bpm grid graph parts timeline).map Statement.hushed := by
  have hdefinitions (parts : List (PartPlan α)) : parts.flatMap PartPlan.definitions =
      (parts.map PartPlan.hushed).flatMap PartPlan.definitions := by
    rw [List.flatMap_map]
    rfl
  have hstatements (parts : List (PartPlan α)) :
      (parts.flatMap PartPlan.statements).map Statement.hushed =
        (parts.map PartPlan.hushed).flatMap fun plan => plan.statements.map Statement.hushed := by
    rw [List.map_flatMap, List.flatMap_map]
    exact List.flatMap_congr fun plan _ => (hushed_statements plan).symm
  have hplay (parts : List (PartPlan α)) : playStatements parts grid =
      playStatements (parts.map PartPlan.hushed) grid := by
    unfold playStatements
    rw [List.filter_map, List.map_map]
    rfl
  have hrouting := hushed_routingStatements graph parts
  have hrouting' := hushed_routingStatements graph parts'
  rw [assemble_eq, assemble_eq, hdefinitions parts, hdefinitions parts', hplay parts,
    hplay parts', hparts]
  simp only [List.map_append, hushed_titled, hstatements, htimeline, hparts, ← hrouting,
    ← hrouting']

/-! ## The graph -/

theorem nameNodes_withoutTexts (graph : List (GraphNode α)) (names : List String) :
    nameNodes (graph.map GraphNode.withoutTexts) names = nameNodes graph names := by
  have hrole (n : GraphNode α) : n.withoutTexts.kind.role = n.kind.role := by
    obtain ⟨id, kind, options, target, preset⟩ := n
    cases kind <;> rfl
  rw [nameNodes, List.zipWith_map_left]
  simp only [hrole]
  rfl

theorem value_drives_withoutTexts (nodes : List NamedNode) (graph : List (GraphNode α)) :
    (drives nodes (graph.map GraphNode.withoutTexts)).value = (drives nodes graph).value := by
  have hlfo (n : GraphNode α) : (n.withoutTexts.kind == .lfo) = (n.kind == .lfo) := by
    obtain ⟨id, kind, options, target, preset⟩ := n
    cases kind <;> rfl
  simp only [drives, Outcome.value_collectSome, List.zip_map_right, List.zipIdx_map,
    List.filter_map, List.filterMap_map]
  simp only [Function.comp_def, Prod.map_snd, Prod.map_fst, hlfo, id]
  rfl

theorem partNames_withoutTexts (p : Performance α) :
    partNames p.withoutTexts = partNames p := by
  have hlabels : p.withoutTexts.parts.map PlayedPart.label =
      (p.parts.map PlayedPart.label).map identifier := by
    rw [Performance.withoutTexts, List.map_map, List.map_map]
    rfl
  rw [partNames, hlabels, Names.freshAll_identifier, partNames]

variable [Scalar α]

theorem value_nodeDefinition_withoutTexts (i : Nat) (name : String) (n : GraphNode α) :
    (nodeDefinition i name n.withoutTexts).value = (nodeDefinition i name n).value := by
  obtain ⟨id, kind, options, target, preset⟩ := n
  cases kind <;> rfl

theorem value_definitions_withoutTexts (graph : List (GraphNode α)) (names : List String) :
    (Outcome.collectSome (((graph.map GraphNode.withoutTexts).zip names).zipIdx.map
      fun ((n, name), i) => nodeDefinition i name n)).value =
    (Outcome.collectSome ((graph.zip names).zipIdx.map
      fun ((n, name), i) => nodeDefinition i name n)).value := by
  simp only [Outcome.value_collectSome, List.zip_map_left, List.zipIdx_map, List.map_map,
    List.filterMap_map]
  refine List.filterMap_congr fun ((n, name), i) _ => ?_
  exact value_nodeDefinition_withoutTexts i name n

theorem value_planGraph_withoutTexts (names : Names) (p : Performance α) :
    (planGraph names p.withoutTexts).value = (planGraph names p).value := by
  have hgraph : p.withoutTexts.graph = p.graph.map GraphNode.withoutTexts := rfl
  have hroutes : p.withoutTexts.routes = p.routes := rfl
  have hids : (p.graph.map GraphNode.withoutTexts).map GraphNode.id = p.graph.map GraphNode.id :=
    List.map_map
  have hnodes := nameNodes_withoutTexts p.graph
  have hdrives := fun nodes => value_drives_withoutTexts nodes p.graph
  unfold nameNodes at hnodes
  simp only [planGraph, Outcome.value_bind, Outcome.value_pure, hgraph, hroutes, hids, hnodes,
    hdrives, value_definitions_withoutTexts]

/-! ## Parts -/

theorem effectTemplate?_asOnly (kind : DeviceKind) (options : Options α) :
    effectTemplate? (kind.asOnly .effect) options = effectTemplate? kind options := by
  cases kind <;> rfl

theorem value_playedTemplate_asOnly (path what : String) (kind : DeviceKind)
    (options : Options α) :
    (playedTemplate path what (kind.asOnly .instrument) options).value =
      (playedTemplate path what kind options).value := by
  cases kind <;> rfl

theorem value_partInstrument_asOnly (graph : GraphPlan α) (names : Names) (path name : String)
    (device : PlacedDevice α) :
    (partInstrument graph names path name (device.asOnly .instrument)).value =
      (partInstrument graph names path name device).value := by
  have htemplate := value_playedTemplate_asOnly (path ++ ".synth") "synth type" device.kind
    device.options
  unfold partInstrument PlacedDevice.asOnly
  dsimp only
  cases device.node.bind graph.instrument? with
  | some symbol => rfl
  | none => simp only [Outcome.value_bind, Outcome.value_pure, htemplate]

theorem hushed_chainOf (graph : GraphPlan α) (path : String)
    (devices : List (PlacedDevice α × Nat)) :
    (chainOf graph path (devices.map (Prod.map (PlacedDevice.asOnly .effect) id))).value.hushed =
      (chainOf graph path devices).value.hushed := by
  induction devices with
  | nil => rfl
  | cons first rest ih =>
    obtain ⟨device, j⟩ := first
    have htemplate := effectTemplate?_asOnly device.kind device.options
    have hlinks := congrArg Chain.links ih
    have hskipped := congrArg Chain.skipped ih
    have houtlet := congrArg Chain.outlet ih
    simp only [Chain.hushed] at hlinks hskipped houtlet
    simp only [List.map_cons, Prod.map_apply, chainOf, PlacedDevice.asOnly, htemplate, id]
    cases device.node.bind (effectBus? graph.nodes) with
    | some outlet => rfl
    | none =>
      cases effectTemplate? device.kind device.options with
      | some template =>
        simp only [Outcome.value_bind, Outcome.value_pure, Chain.hushed, hlinks, hskipped,
          houtlet]
      | none =>
        simp only [Outcome.value_bind, Outcome.value_pure, Chain.hushed, List.map_cons, hlinks,
          hskipped, houtlet]

theorem hushed_planPart (p : Performance α) (graph : GraphPlan α) (names : Names) (i : Nat)
    (name : String) (part : PlayedPart α) :
    let bare := (planPart p.withoutTexts graph names i name part.withoutTexts).value
    let full := (planPart p graph names i name part).value
    bare.1.hushed = full.1.hushed ∧ bare.2 = full.2 := by
  have hinstrument := value_partInstrument_asOnly graph names (entryPath "sequences" i) name
    part.instrument
  have hchain := hushed_chainOf graph (entryPath "sequences" i) part.effects.zipIdx
  rw [← List.zipIdx_map] at hchain
  have hlinks := congrArg Chain.links hchain
  have hskipped := congrArg Chain.skipped hchain
  have houtlet := congrArg Chain.outlet hchain
  simp only [Chain.hushed] at hlinks hskipped houtlet
  -- The two differ in nothing that is played.
  have hsteps : steps p.tempo (entryPath "sequences" i) part.withoutTexts =
      steps p.tempo (entryPath "sequences" i) part := rfl
  have hplayed : instrumentOutlet graph part.withoutTexts.instrument =
      instrumentOutlet graph part.instrument := rfl
  have hperiod : periodBeats p.tempo part.withoutTexts = periodBeats p.tempo part := rfl
  have hnode : (part.instrument.asOnly .instrument).node = part.instrument.node := rfl
  simp only [planPart, Outcome.value_bind, Outcome.value_pure]
  simp only [Performance.withoutTexts, PartPlan.hushed, List.map_append, hushed_skippedComments,
    hsteps, hplayed, hperiod]
  simp only [PlayedPart.withoutTexts, hinstrument, hnode, hlinks, houtlet, hskipped, and_self]

theorem hushed_planParts (p : Performance α) (graph : GraphPlan α) (names : Names) (i : Nat)
    (parts : List (PlayedPart α × String)) :
    ((planParts p.withoutTexts graph names i
        (parts.map (Prod.map PlayedPart.withoutTexts id))).value.map PartPlan.hushed) =
      (planParts p graph names i parts).value.map PartPlan.hushed := by
  induction parts generalizing names i with
  | nil => rfl
  | cons first rest ih =>
    obtain ⟨part, name⟩ := first
    obtain ⟨hplan, hnames⟩ := hushed_planPart p graph names i name part
    rw [List.map_cons, Prod.map_apply, planParts_cons, planParts_cons, List.map_cons,
      List.map_cons]
    exact congrArg₂ List.cons hplan (by rw [id, hnames, ih])

theorem graphPlan_withoutTexts (p : Performance α) : graphPlan p.withoutTexts = graphPlan p := by
  rw [graphPlan, value_planGraph_withoutTexts, graphPlan]

theorem hushed_partPlans (p : Performance α) :
    (partPlans p.withoutTexts).map PartPlan.hushed = (partPlans p).map PartPlan.hushed := by
  have hzip : p.withoutTexts.parts.zip (partNames p) =
      (p.parts.zip (partNames p)).map (Prod.map PlayedPart.withoutTexts id) :=
    List.zip_map_left ..
  rw [partPlans, graphPlan_withoutTexts, partNames_withoutTexts, value_planGraph_withoutTexts,
    hzip, hushed_planParts, partPlans]

/-! ## Scripts -/

theorem changesOf_hushed (p : Performance α) (graph : GraphPlan α) (parts : List (PartPlan α)) :
    changesOf p graph (parts.map PartPlan.hushed) = changesOf p graph parts := by
  have haction (e : PlayedAutomation α) :
      automationAction p.tempo graph (parts.map PartPlan.hushed) e =
        automationAction p.tempo graph parts e := by
    rw [automationAction, receivers_hushed, automationAction]
  simp only [changesOf, haction]

theorem hushed_timeline (p : Performance α) (graph : GraphPlan α) {parts parts' : List (PartPlan α)}
    (hparts : parts'.map PartPlan.hushed = parts.map PartPlan.hushed) (grid : α) :
    (timeline p.withoutTexts graph parts' grid).value.map Statement.hushed =
      (timeline p graph parts grid).value.map Statement.hushed := by
  have hremarks : (p.withoutTexts.remarks.map (remarkComment p.tempo)).map Statement.hushed =
      (p.remarks.map (remarkComment p.tempo)).map Statement.hushed := by
    rw [Performance.withoutTexts, List.map_map, List.map_map, List.map_map]
    rfl
  have hchanges : changesOf p.withoutTexts graph parts' = changesOf p graph parts := by
    rw [← changesOf_hushed p graph parts, ← hparts, changesOf_hushed]
    rfl
  have htempo : p.withoutTexts.tempo = p.tempo := rfl
  rw [value_timeline, value_timeline, hchanges, List.map_append, htempo, hremarks,
    List.map_append]

theorem hushed_body (settings : Settings α) (p : Performance α) :
    (scriptOf settings p.withoutTexts).value.body.map Statement.hushed =
      (scriptOf settings p).value.body.map Statement.hushed := by
  have hgrid : gridOf settings p.withoutTexts = gridOf settings p := rfl
  have htempo : p.withoutTexts.tempo = p.tempo := rfl
  rw [body_scriptOf, body_scriptOf, hgrid, graphPlan_withoutTexts, htempo]
  exact hushed_assemble _ _ _ (hushed_partPlans p)
    (hushed_timeline p (graphPlan p) (hushed_partPlans p) (gridOf settings p))

/-- Performances that differ in their free texts only have scripts that differ in what their
comments say only. -/
theorem hushed_scriptOf (settings : Settings α) {p q : Performance α}
    (h : p.withoutTexts = q.withoutTexts) :
    (scriptOf settings p).value.body.map Statement.hushed =
      (scriptOf settings q).value.body.map Statement.hushed := by
  rw [← hushed_body settings p, h, hushed_body]

end Script

end Partitura
