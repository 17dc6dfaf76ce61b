import Partitura.Number.Rational
import Partitura.Proofs.Performance.TimePlaces
import Partitura.Proofs.Script.Defined
import Partitura.Proofs.Script.Signals

/-!
# The way of a sound

The sound of a part runs through its effects in order: from the outlet of the pattern on, each
effect that is no node has a synth that takes it on to the next one. It ends at the first effect
that is a node, or where the instrument's node goes, or at the hardware. Effects that no template
fits are left out of the way and reported, and so are effects that it does not get to. The way is
the one that the lines of the part say.
-/

namespace Partitura.Script

variable {α : Type}

/-! ## Ways through synths -/

/-- What a sound runs through from an outlet on, and where it ends. A node can have the name of a
synth that was passed, so none is passed twice. -/
def follow (synths : List StartedSynth) (outlet : Outlet) : List String × Outlet :=
  match outlet with
  | .hardware => ([], .hardware)
  | .bus bus =>
    match _h : synths.find? fun s => s.input == bus with
    | some s => (bus :: (follow (synths.erase s) s.output).1, (follow (synths.erase s) s.output).2)
    | none => ([], .bus bus)
termination_by synths.length
decreasing_by
  all_goals
    have hmem := List.mem_of_find?_eq_some _h
    have hlength := List.length_erase_of_mem hmem
    have hpos := List.length_pos_of_mem hmem
    omega

theorem follow_nil (outlet : Outlet) : follow [] outlet = ([], outlet) := by
  cases outlet <;> simp [follow]

theorem follow_cons (s : StartedSynth) (synths : List StartedSynth) :
    follow (s :: synths) (.bus s.input) =
      (s.input :: (follow synths s.output).1, (follow synths s.output).2) := by
  rw [follow]
  split
  · next found hfound =>
    obtain rfl : s = found := by simpa using hfound
    rw [List.erase_cons_head]
  · next hnone => simp at hnone

/-- The synths of a chain take a sound through all its links to the outlet of the chain. -/
theorem follow_wire (outlet : Outlet) (links : List String) :
    follow ((wire (α := α) outlet links).filterMap Statement.synth?) (chainInlet outlet links) =
      (links, outlet) := by
  induction links with
  | nil => exact follow_nil outlet
  | cons link rest ih =>
    cases rest with
    | nil =>
      have hlast := follow_cons ⟨"~fx_" ++ link, "fx_" ++ link, link, outlet⟩ []
      rwa [follow_nil] at hlast
    | cons next rest =>
      -- of the synths that are left, the first one reads the bus
      have hfirst := follow_cons ⟨"~fx_" ++ link, "fx_" ++ link, link, .bus next⟩
        ((wire (α := α) outlet (next :: rest)).filterMap Statement.synth?)
      rw [chainInlet] at ih
      rw [ih] at hfirst
      exact hfirst

theorem synths_wire (outlet : Outlet) (links : List String) :
    ((wire (α := α) outlet links).filterMap Statement.synth?).map (fun s => (s.name, s.symbol)) =
      links.map fun link => ("~fx_" ++ link, "fx_" ++ link) := by
  induction links with
  | nil => rfl
  | cons link rest ih =>
    cases rest with
    | nil => rfl
    | cons next rest => exact congrArg (("~fx_" ++ link, "fx_" ++ link) :: ·) ih

theorem filterMap_synth?_skipped (kinds : List String) :
    (kinds.map (skippedComment (α := α))).filterMap Statement.synth? = [] := by
  rw [List.filterMap_map]
  exact List.filterMap_eq_nil_iff.mpr fun _ _ => rfl

/-! ## The effects of a part -/

variable [Scalar α]

/-- Where the first effect that is a node takes a sound. -/
def graphStop? (nodes : List NamedNode) (devices : List (PlacedDevice α)) : Option Outlet :=
  devices.findSome? (graphBus? nodes)

/-- What the effects before the first one that is a node are made of, as far as a template fits. -/
def linkTemplates (nodes : List NamedNode) (devices : List (PlacedDevice α)) :
    List (Template α) :=
  (devices.takeWhile fun d => (graphBus? nodes d).isNone).filterMap fun d =>
    effectTemplate? d.kind d.options

def effectRemark? (nodes : List NamedNode) (devices : List (PlacedDevice α)) (j : Nat) :
    Option String :=
  if (devices.take j).any fun d => (graphBus? nodes d).isSome then none
  else devices[j]?.bind fun d =>
    if (graphBus? nodes d).isSome then
      if j + 1 < devices.length then
        some "effects after a graph effect are not reachable, dropped"
      else none
    else if (effectTemplate? d.kind d.options).isNone then
      some ("unsupported effect '" ++ d.kind.text ++ "', left out of the chain")
    else none

theorem value_chainOf (graph : GraphPlan α) (path : String)
    (devices : List (PlacedDevice α × Nat)) :
    (chainOf graph path devices).value.links.map Prod.snd =
        linkTemplates graph.nodes (devices.map Prod.fst) ∧
      (chainOf graph path devices).value.outlet =
        graphStop? graph.nodes (devices.map Prod.fst) := by
  induction devices with
  | nil => exact ⟨rfl, rfl⟩
  | cons first rest ih =>
    obtain ⟨d, j⟩ := first
    obtain ⟨hlinks, houtlet⟩ := ih
    rw [List.map_cons, linkTemplates, graphStop?, List.takeWhile_cons, List.findSome?_cons]
    rcases chainOf_cases graph path d j rest with
      ⟨outlet, hbus, heq⟩ | ⟨hbus, t, htemplate, heq⟩ | ⟨hbus, htemplate, heq⟩
    · simp [heq, hbus]
    · simp [heq, hbus, htemplate, hlinks, houtlet, linkTemplates, graphStop?]
    · simp [heq, hbus, htemplate, hlinks, houtlet, linkTemplates, graphStop?]

/-! ## Reports on effects -/

section Remarks

variable {nodes : List NamedNode} {d : PlacedDevice α} (devices : List (PlacedDevice α))

theorem effectRemark?_zero_of_node (h : (graphBus? nodes d).isSome = true) :
    effectRemark? nodes (d :: devices) 0 = if devices.isEmpty then none else
      some "effects after a graph effect are not reachable, dropped" := by
  cases devices <;> simp [effectRemark?, h]

theorem effectRemark?_zero_of_inline (h : graphBus? nodes d = none) :
    effectRemark? nodes (d :: devices) 0 =
      if (effectTemplate? d.kind d.options).isNone then
        some ("unsupported effect '" ++ d.kind.text ++ "', left out of the chain")
      else none := by
  simp [effectRemark?, h]

theorem effectRemark?_succ_of_node (h : (graphBus? nodes d).isSome = true) (j : Nat) :
    effectRemark? nodes (d :: devices) (j + 1) = none := by
  simp [effectRemark?, h]

theorem effectRemark?_succ_of_inline (h : graphBus? nodes d = none) (j : Nat) :
    effectRemark? nodes (d :: devices) (j + 1) = effectRemark? nodes devices j := by
  simp [effectRemark?, h]

end Remarks

theorem diagnostics_chainOf (graph : GraphPlan α) (path : String)
    (devices : List (PlacedDevice α)) (s : Nat) :
    (chainOf graph path (devices.zipIdx s)).diagnostics =
      (List.range devices.length).flatMap fun j =>
        (effectRemark? graph.nodes devices j).toList.map
          (.warning (path ++ "." ++ entryPath "effects" (s + j))) := by
  induction devices generalizing s with
  | nil => rfl
  | cons d rest ih =>
    have hlater (h : graphBus? graph.nodes d = none) :
        ((List.range rest.length).flatMap fun j =>
          (effectRemark? graph.nodes (d :: rest) (j + 1)).toList.map
            (.warning (path ++ "." ++ entryPath "effects" (s + (j + 1))))) =
          (chainOf graph path (rest.zipIdx (s + 1))).diagnostics := by
      rw [ih]
      refine List.flatMap_congr fun j _ => ?_
      rw [effectRemark?_succ_of_inline rest h, Nat.add_assoc s 1 j, Nat.add_comm 1 j]
    rw [List.zipIdx_cons, List.length_cons, List.range_succ_eq_map, List.flatMap_cons,
      List.flatMap_map, Nat.add_zero]
    rcases chainOf_cases graph path d s (rest.zipIdx (s + 1)) with
      ⟨outlet, hbus, heq⟩ | ⟨hbus, t, htemplate, heq⟩ | ⟨hbus, htemplate, heq⟩
    · have hnode : (graphBus? graph.nodes d).isSome = true := by rw [hbus]; rfl
      simp only [heq, effectRemark?_zero_of_node _ hnode, effectRemark?_succ_of_node _ hnode]
      cases rest <;> simp
    · simp only [Nat.succ_eq_add_one, hlater hbus, heq, effectRemark?_zero_of_inline _ hbus,
        htemplate]
      rfl
    · simp only [Nat.succ_eq_add_one, hlater hbus, heq, effectRemark?_zero_of_inline _ hbus,
        htemplate]
      rfl

def effectPath (i j : Nat) : String := entryPath "sequences" i ++ "." ++ entryPath "effects" j

theorem effectPath_injective (i : Nat) : Function.Injective (effectPath i) := by
  intro j k h
  have htail := (String.append_right_inj _).mp h
  have hentry : entryPath "effects" j ++ "" = entryPath "effects" k ++ "" := by
    rw [String.append_empty, String.append_empty, htail]
  exact (entryPath_append_inj (by decide) (by decide) hentry).2.1

theorem filter_reports_at {path : Nat → String} (hpath : Function.Injective path)
    (text? : Nat → Option String) (n j : Nat) :
    ((List.range n).flatMap fun k => (text? k).toList.map (Diagnostic.warning (path k))).filter
        (fun d => d.path == some (path j)) =
      if j < n then (text? j).toList.map (.warning (path j)) else [] := by
  have hone (k : Nat) : ((text? k).toList.map (Diagnostic.warning (path k))).filter
      (fun d => d.path == some (path j)) =
        if k = j then (text? j).toList.map (.warning (path j)) else [] := by
    split
    · next h =>
      rw [h]
      cases text? j <;> simp [Diagnostic.warning]
    · next h =>
      have hne : path k ≠ path j := fun heq => h (hpath heq)
      cases text? k <;> simp [Diagnostic.warning, hne]
  induction n with
  | zero => rfl
  | succ n ih =>
    rw [List.range_succ, List.flatMap_append, List.filter_append, ih, List.flatMap_singleton, hone]
    rcases Nat.lt_trichotomy j n with h | rfl | h
    · rw [if_pos h, if_neg h.ne', if_pos (Nat.lt_succ_of_lt h), List.append_nil]
    · rw [if_neg (Nat.lt_irrefl j), if_pos rfl, if_pos (Nat.lt_succ_self j), List.nil_append]
    · rw [if_neg (Nat.lt_asymm h), if_neg h.ne, if_neg (by omega), List.nil_append]

theorem reports_partInstrument (graph : GraphPlan α) (names : Names) (path name : String)
    (device : PlacedDevice α) : (partInstrument graph names path name device).Reports
      fun d => d.path = some (path ++ ".synth") := by
  have htemplate : (playedTemplate (path ++ ".synth") "synth type" device.kind
      device.options).Reports fun d => d.path = some (path ++ ".synth") := by
    unfold playedTemplate
    split
    · exact Outcome.reports_pure _
    · exact Outcome.reports_note_bind rfl fun _ => Outcome.reports_pure _
  unfold partInstrument
  split
  · exact Outcome.reports_pure _
  · exact Outcome.reports_bind htemplate fun _ => Outcome.reports_pure _

theorem reports_steps (tempo : TempoMap α) (path : String) (part : PlayedPart α) :
    (steps tempo path part).Reports
      fun d => ∃ k, d.path = some (path ++ "." ++ entryPath "notes" k ++ ".note") := by
  have hpitch (place : String) (cents : α) (v : PitchValue) :
      (pitchNumber place cents v).Reports fun d => d.path = some place := by
    unfold pitchNumber
    split
    · exact Outcome.reports_pure _
    · exact Outcome.reports_note_bind rfl fun _ => Outcome.reports_pure _
  have hnote (period : Option α) (n : PlayedNote α) : (noteStep tempo period path n).Reports
      fun d => d.path = some (path ++ "." ++ entryPath "notes" n.index ++ ".note") := by
    unfold noteStep
    dsimp only
    split_ifs
    · exact Outcome.reports_pure _
    · refine Outcome.reports_bind (fun d hd => ?_) fun _ => Outcome.reports_pure _
      obtain ⟨o, ho, hd⟩ := List.mem_flatMap.mp hd
      obtain ⟨v, -, rfl⟩ := List.mem_map.mp ho
      exact hpitch _ _ v d hd
  refine Outcome.reports_bind (fun d hd => ?_) fun _ => Outcome.reports_pure _
  obtain ⟨o, ho, hd⟩ := List.mem_flatMap.mp hd
  obtain ⟨n, -, rfl⟩ := List.mem_map.mp ho
  exact ⟨n.index, hnote _ n d hd⟩

theorem diagnostics_planPart (p : Performance α) (graph : GraphPlan α) (names : Names) (i : Nat)
    (name : String) (part : PlayedPart α) :
    (planPart p graph names i name part).diagnostics =
      (partInstrument graph names (entryPath "sequences" i) name part.instrument).diagnostics
        ++ ((chainOf graph (entryPath "sequences" i) part.effects.zipIdx).diagnostics
        ++ (steps p.tempo (entryPath "sequences" i) part).diagnostics) := by
  simp only [planPart, Outcome.diagnostics_bind, Outcome.diagnostics_pure, List.append_nil]

theorem ne_effectPath {i j : Nat} {rest : String}
    (h : rest = ".synth" ∨ ∃ k, rest = "." ++ entryPath "notes" k ++ ".note") :
    entryPath "sequences" i ++ rest ≠ effectPath i j := by
  intro heq
  rw [effectPath, String.append_assoc] at heq
  have htail := (String.append_right_inj _).mp heq
  rcases h with rfl | ⟨k, rfl⟩
  · simp [entryPath, ← String.toList_inj] at htail
  · rw [String.append_assoc] at htail
    have hentry := (String.append_right_inj _).mp htail
    rw [← String.append_empty (s := entryPath "effects" j)] at hentry
    exact absurd (entryPath_append_inj (by decide) (by decide) hentry).1 (by decide)

theorem reports_effect_planPart (p : Performance α) (graph : GraphPlan α) (names : Names)
    (i : Nat) (name : String) (part : PlayedPart α) (j : Nat) :
    (planPart p graph names i name part).diagnostics.filter
        (fun d => d.path == some (effectPath i j)) =
      (effectRemark? graph.nodes part.effects j).toList.map (.warning (effectPath i j)) := by
  have hinstrument : (partInstrument graph names (entryPath "sequences" i) name
      part.instrument).diagnostics.filter (fun d => d.path == some (effectPath i j)) = [] := by
    refine List.filter_eq_nil_iff.mpr fun d hd => ?_
    have hne := ne_effectPath (i := i) (j := j) (.inl rfl)
    simp [reports_partInstrument graph names _ name part.instrument d hd, hne]
  have hsteps : (steps p.tempo (entryPath "sequences" i) part).diagnostics.filter
      (fun d => d.path == some (effectPath i j)) = [] := by
    refine List.filter_eq_nil_iff.mpr fun d hd => ?_
    obtain ⟨k, hpath⟩ := reports_steps p.tempo _ part d hd
    have hne := ne_effectPath (i := i) (j := j) (.inr ⟨k, rfl⟩)
    rw [← String.append_assoc, ← String.append_assoc] at hne
    simp [hpath, hne]
  have hchain : (chainOf graph (entryPath "sequences" i) part.effects.zipIdx).diagnostics =
      (List.range part.effects.length).flatMap fun k =>
        (effectRemark? graph.nodes part.effects k).toList.map (.warning (effectPath i k)) := by
    have hall := diagnostics_chainOf graph (entryPath "sequences" i) part.effects 0
    simp only [Nat.zero_add] at hall
    exact hall
  rw [diagnostics_planPart, List.filter_append, List.filter_append, hinstrument, hsteps, hchain,
    filter_reports_at (effectPath_injective i), List.nil_append, List.append_nil]
  split
  · rfl
  · next h =>
    have hnone : part.effects[j]? = none := List.getElem?_eq_none (Nat.le_of_not_lt h)
    simp [effectRemark?, hnone]

/-! ## Notes that are played -/

/-- A note with a pitch that starts before the period is over, and is not too short before
then. -/
structure IsPlayable (tempo : TempoMap α) (period : Option α) (n : PlayedNote α) : Prop where
  pitches : n.pitches ≠ []
  early : ∀ beats ∈ period, ¬beats - nearness ≤ tempo.beatAtSeconds n.start
  long : ¬(period.map (Scalar.minOf (tempo.beatAtSeconds n.stop))).getD
    (tempo.beatAtSeconds n.stop) - tempo.beatAtSeconds n.start < nearness

theorem noteStep_eq_none_iff (tempo : TempoMap α) (period : Option α) (path : String)
    (n : PlayedNote α) :
    (noteStep tempo period path n).value = none ↔ ¬IsPlayable tempo period n := by
  unfold noteStep
  dsimp only
  split_ifs with h
  · refine iff_of_true rfl fun hplayable => ?_
    rcases h with hlate | hshort | hnone
    · cases period with
      | none => cases hlate
      | some beats => exact hplayable.early beats rfl (of_decide_eq_true hlate)
    · refine hplayable.long ?_
      cases period <;> exact hshort
    · exact hplayable.pitches (List.isEmpty_iff.mp hnone)
  · refine iff_of_false not_false (not_not_intro ⟨?_, ?_, ?_⟩)
    · exact fun hnone => h (.inr (.inr (List.isEmpty_iff.mpr hnone)))
    · rintro beats hbeats hlate
      obtain rfl := Option.mem_def.mp hbeats
      exact h (.inl (decide_eq_true hlate))
    · intro hshort
      refine h (.inr (.inl ?_))
      cases period <;> exact hshort

theorem foldl_addStep_eq_nil_iff {single steps : List (Step α)} :
    single.foldl addStep steps = [] ↔ steps = [] ∧ single = [] := by
  have hne (steps : List (Step α)) (next : Step α) : addStep steps next ≠ [] := by
    unfold addStep
    split
    · exact List.cons_ne_nil _ _
    · split_ifs <;> exact List.cons_ne_nil _ _
  induction single generalizing steps with
  | nil => simp
  | cons next rest ih => simp [ih, hne]

theorem steps_ne_nil_iff (tempo : TempoMap α) (path : String) (part : PlayedPart α) :
    (steps tempo path part).value ≠ [] ↔
      ∃ n ∈ part.notes, IsPlayable tempo (periodBeats tempo part) n := by
  have hmem {n : PlayedNote α} : n ∈ part.sortedNotes ↔ n ∈ part.notes :=
    (List.mergeSort_perm _ _).mem_iff
  simp only [steps, Outcome.value_bind, Outcome.value_collectSome, Outcome.value_pure, ne_eq,
    List.reverse_eq_nil_iff, foldl_addStep_eq_nil_iff, true_and, List.filterMap_map,
    List.filterMap_eq_nil_iff, Function.comp_apply, noteStep_eq_none_iff, hmem]
  push Not
  rfl

/-! ## The way of the sound of a part -/

theorem purpose_partInstrument (graph : GraphPlan α) (names : Names) (path name : String)
    (device : PlacedDevice α) :
    ∀ d ∈ (partInstrument graph names path name device).value.2.1, d.purpose = .instrument := by
  unfold partInstrument
  split
  · nofun
  · exact List.forall_mem_singleton.mpr rfl

def linkDefinitions (links : List String) (templates : List (Template α)) :
    List (Definition α) :=
  List.zipWith (fun link t => ⟨effectSymbol link, .effect, t⟩) links templates

omit [Scalar α] in
theorem exists_of_mem_linkDefinitions {links : List String} {templates : List (Template α)}
    {d : Definition α} (h : d ∈ linkDefinitions links templates) :
    d.purpose = .effect ∧ ∃ link ∈ links, d.name = effectSymbol link := by
  rw [linkDefinitions, ← List.map_uncurry_zip_eq_zipWith] at h
  obtain ⟨⟨link, t⟩, hmem, rfl⟩ := List.mem_map.mp h
  exact ⟨rfl, link, (List.of_mem_zip hmem).1, rfl⟩

omit [Scalar α] in
theorem names_linkDefinitions_eq {links : List String} {templates : List (Template α)}
    (h : links.length = templates.length) :
    (linkDefinitions links templates).map Definition.name = links.map effectSymbol := by
  rw [linkDefinitions, List.map_zipWith, ← List.map_uncurry_zip_eq_zipWith]
  conv_rhs => rw [← List.map_fst_zip h.le, List.map_map]
  rfl

theorem definitions_planPart (p : Performance α) (graph : GraphPlan α) (names : Names)
    (i : Nat) (name : String) (part : PlayedPart α) :
    (planPart p graph names i name part).value.1.definitions =
      (partInstrument graph names (entryPath "sequences" i) name
          part.instrument).value.2.1 ++
        linkDefinitions
          (linkNames (partInstrument graph names (entryPath "sequences" i) name
            part.instrument).value.2.2 name
            (chainOf graph (entryPath "sequences" i) part.effects.zipIdx).value.links)
          (linkTemplates graph.nodes part.effects) := by
  have hsymbols := map_effectSymbol_linkNames (partInstrument graph names
    (entryPath "sequences" i) name part.instrument).value.2.2 name
    (chainOf graph (entryPath "sequences" i) part.effects.zipIdx).value.links
  obtain ⟨htemplates, -⟩ := value_chainOf graph (entryPath "sequences" i) part.effects.zipIdx
  rw [List.zipIdx_map_fst] at htemplates
  simp only [planPart, Outcome.value_bind, Outcome.value_pure, linkDefinitions, ← hsymbols,
    ← htemplates, List.zipWith_map_left, List.zipWith_map_right]

omit [Scalar α] in
theorem filter_definitions {instruments : List (Definition α)} {links : List String}
    {templates : List (Template α)} (h : ∀ d ∈ instruments, d.purpose = .instrument) :
    (instruments ++ linkDefinitions links templates).filter (fun d => d.purpose == .effect) =
      linkDefinitions links templates := by
  have hinstruments : instruments.filter (fun d => d.purpose == .effect) = [] :=
    List.filter_eq_nil_iff.mpr fun d hd => by simp [h d hd]
  rw [List.filter_append, hinstruments, List.nil_append]
  exact List.filter_eq_self.mpr fun d hd => by simp [(exists_of_mem_linkDefinitions hd).1]

theorem definedEffects_links {instruments : List (Definition α)} {links : List String}
    {templates : List (Template α)} (h : ∀ d ∈ instruments, d.purpose = .instrument)
    (hlinks : ∀ link ∈ links, IsWord link) (hlength : links.length = templates.length) :
    definedEffects ((instruments ++ linkDefinitions links templates).flatMap Definition.lines) =
      links.map fun link => "fx_" ++ link := by
  rw [definedEffects_flatMap, filter_definitions h]
  · exact names_linkDefinitions_eq hlength
  · intro d hd
    rcases List.mem_append.mp hd with hd | hd
    · have hpurpose := h d hd
      exact ⟨fun heffect => by simp [hpurpose] at heffect,
        fun hmodulator => by simp [hpurpose] at hmodulator⟩
    · obtain ⟨hpurpose, link, hlink, hname⟩ := exists_of_mem_linkDefinitions hd
      refine ⟨fun _ => ?_, fun hmodulator => by simp [hpurpose] at hmodulator⟩
      rw [hname]
      exact isWord_effectSymbol_iff.mpr (hlinks link hlink)

theorem isSome_nodeNamed?_of_routed {nodes : List NamedNode} {routed : List (String × Outlet)}
    {routes : List (Route × Nat)} (h : ∀ d ∈ routed, (nodeNamed? nodes d.1).isSome = true) :
    ∀ d ∈ (routeNodes nodes routed routes).value, (nodeNamed? nodes d.1).isSome = true := by
  induction routes generalizing routed with
  | nil => exact h
  | cons first rest ih =>
    obtain ⟨r, i⟩ := first
    have hsource {outlet : Outlet} (hroute : routeOutlet nodes routed r = .ok outlet) :
        (nodeNamed? nodes r.source).isSome = true := by
      unfold routeOutlet hasOutput at hroute
      cases hn : nodeNamed? nodes r.source with
      | some n => rfl
      | none =>
        simp only [hn, Bool.false_eq_true, if_false] at hroute
        split at hroute <;> cases hroute
    simp only [routeNodes]
    split
    · next outlet hroute =>
      refine ih fun d hd => ?_
      rcases List.mem_append.mp hd with hd | hd
      · exact h d hd
      · rw [List.mem_singleton.mp hd]
        exact hsource hroute
    · exact ih h

theorem destination_of_unknown (names : Names) (q : Performance α) {id : String}
    (h : (planGraph names q).value.1.role? id = none) :
    (planGraph names q).value.1.destination id = .hardware := by
  have hnone : nodeNamed? (planGraph names q).value.1.nodes id = none :=
    Option.map_eq_none_iff.mp h
  have hfind : (planGraph names q).value.1.destinations.find? (fun d => d.1 == id) = none := by
    refine List.find?_eq_none.mpr fun d hd heq => ?_
    have hknown : (nodeNamed? (planGraph names q).value.1.nodes d.1).isSome = true :=
      isSome_nodeNamed?_of_routed (List.forall_mem_nil _) d hd
    rw [beq_iff_eq.mp heq, hnone] at hknown
    cases hknown
  rw [GraphPlan.destination, destinationIn, hfind]
  rfl

def PartPlan.synths (plan : PartPlan α) (server : String) : List StartedSynth :=
  (plan.effects.flatMap (Statement.lines server)).filterMap (startedSynth? server)

/-- By the lines of a part, its sound runs from the outlet of its pattern through links of the
part's own, and ends where its effects or its instrument take it. -/
structure PartPlan.RunsThrough (plan : PartPlan α) (server : String) (graph : GraphPlan α)
    (part : PlayedPart α) (inlet : Outlet) (links : List String) (stop : Outlet) : Prop where
  played : (plan.statements.flatMap (Statement.lines server)).filterMap patternOutlet? = [inlet]
  way : follow (plan.synths server) inlet = (links, stop)
  synths : (plan.synths server).map (fun s => (s.name, s.symbol)) =
    links.map fun link => ("~fx_" ++ link, "fx_" ++ link)
  definitions : definedEffects (plan.definitions.flatMap Definition.lines) =
    links.map fun link => "fx_" ++ link
  length : links.length = (linkTemplates graph.nodes part.effects).length
  templates : plan.definitions.filter (fun d => d.purpose == .effect) =
    linkDefinitions links (linkTemplates graph.nodes part.effects)
  buses : (plan.buses.flatMap (Statement.lines server)).filterMap (allocatedBus? server) = links
  distinct : links.Nodup
  atEffect : ∀ outlet, graphStop? graph.nodes part.effects = some outlet → stop = outlet
  atDestination : graphStop? graph.nodes part.effects = none → ∀ id,
    part.instrument.node = some id → (graph.role? id).isSome = true → stop = graph.destination id
  atHardware : graphStop? graph.nodes part.effects = none →
    (∀ id, part.instrument.node = some id → graph.role? id = none) → stop = .hardware

theorem startedSynths_wire (server : String) {stop : Outlet} {links : List String}
    (skipped : List String) (hstop : stop.IsWord) (hlinks : ∀ link ∈ links, IsWord link) :
    ((skipped.map skippedComment ++ wire (α := α) stop links).flatMap
        (Statement.lines server)).filterMap (startedSynth? server) =
      (wire (α := α) stop links).filterMap Statement.synth? := by
  rw [startedSynths_lines, List.filterMap_append, filterMap_synth?_skipped, List.nil_append]
  intro st hst
  rcases List.mem_append.mp hst with hst | hst
  · obtain ⟨kind, -, rfl⟩ := List.mem_map.mp hst
    exact .inl ⟨_, rfl⟩
  · obtain ⟨link, hlink, outlet, rfl, houtlet⟩ := mem_wire hst
    refine .inr ⟨link, outlet, rfl, hlinks link hlink, ?_⟩
    rcases houtlet with rfl | ⟨next, hnext, rfl⟩
    · exact hstop
    · exact hlinks next hnext

theorem isWord_chainInlet {stop : Outlet} {links : List String} (hstop : stop.IsWord)
    (hlinks : ∀ link ∈ links, IsWord link) : (chainInlet stop links).IsWord := by
  cases links with
  | nil => exact hstop
  | cons link rest => exact hlinks link List.mem_cons_self

theorem patternOutlets_statements (server : String) {plan : PartPlan α} {pattern : Pattern α}
    (h : plan.pattern = some pattern) (hword : pattern.outlet.IsWord) :
    (plan.statements.flatMap (Statement.lines server)).filterMap patternOutlet? =
      [pattern.outlet] := by
  have hgroup : patternOutlet? (.plain ((Variable.group plan.name).text ++ " = Group.head("
      ++ server ++ ");")) = none :=
    patternOutlet?_of_not_opens (by simp [Variable.text, List.isPrefixOf?])
  rw [PartPlan.statements, h]
  show (Line.plain _ :: (pattern.lines ++ [])).filterMap patternOutlet? = _
  rw [List.filterMap_cons_none hgroup, List.append_nil, patternOutlets_lines hword]

/-- By the lines of a part in which a note is played, its sound runs through a synth for each effect
before the first one that is a node, those left out that no template fits, and each of these is
reported, as is a node that more effects follow. -/
theorem runsThrough_planPart (server : String) (requests : List Request) (names : Names)
    (q p : Performance α) (i : Nat) (name : String) (part : PlayedPart α)
    (h : ∃ n ∈ part.notes, IsPlayable p.tempo (periodBeats p.tempo part) n) :
    let graph := (planGraph (Names.empty.answers requests).2 q).value.1
    let planned := planPart p graph names i name part
    ∃ inlet links stop, planned.value.1.RunsThrough server graph part inlet links stop ∧
      ∀ j, planned.diagnostics.filter (fun d => d.path == some (effectPath i j)) =
        (effectRemark? graph.nodes part.effects j).toList.map (.warning (effectPath i j)) := by
  intro graph planned
  let path := entryPath "sequences" i
  let chain := (chainOf graph path part.effects.zipIdx).value
  let links := linkNames (partInstrument graph names path name part.instrument).value.2.2 name
    chain.links
  let stop := chain.outlet.getD (instrumentOutlet graph part.instrument)
  obtain ⟨htemplates, houtlet⟩ := value_chainOf graph path part.effects.zipIdx
  rw [List.zipIdx_map_fst] at htemplates houtlet
  have hsteps : ¬(steps p.tempo path part).value.isEmpty = true := fun hnone =>
    (steps_ne_nil_iff p.tempo path part).mpr h (List.isEmpty_iff.mp hnone)
  have hwithout (hnone : graphStop? graph.nodes part.effects = none) :
      stop = instrumentOutlet graph part.instrument := by
    simp only [stop, chain, houtlet, hnone, Option.getD_none]
  have hstop : stop.IsWord :=
    (reaches_partOutlet (sound_planGraph _ q) path part).isWord
      (isWord_nodes_planGraph requests q)
  have hlinks : ∀ link ∈ links, IsWord link := isWord_linkNames _ name chain.links
  have hlength : links.length = (linkTemplates graph.nodes part.effects).length := by
    rw [length_linkNames, ← htemplates, List.length_map]
  have hinstruments := purpose_partInstrument graph names path name part.instrument
  have hsynths : planned.value.1.synths server =
      (wire (α := α) stop links).filterMap Statement.synth? :=
    startedSynths_wire server chain.skipped hstop hlinks
  refine ⟨chainInlet stop links, links, stop, ?_, reports_effect_planPart p graph names i name part⟩
  constructor
  case played =>
    have hpattern : planned.value.1.pattern = some ⟨name, _, chainInlet stop links, _, _, _⟩ :=
      if_neg hsteps
    exact patternOutlets_statements server hpattern (isWord_chainInlet hstop hlinks)
  case way =>
    rw [hsynths]
    exact follow_wire stop links
  case synths =>
    rw [hsynths]
    exact synths_wire stop links
  case definitions =>
    rw [definitions_planPart]
    exact definedEffects_links hinstruments hlinks hlength
  case length => exact hlength
  case templates =>
    rw [definitions_planPart]
    exact filter_definitions hinstruments
  case buses => exact allocatedBuses_lines server hlinks
  case distinct => exact nodup_linkNames _ _ _
  case atEffect =>
    intro outlet hstop
    simp only [stop, chain, houtlet, hstop, Option.getD_some]
  case atDestination =>
    intro hnone id hid _
    rw [hwithout hnone, instrumentOutlet, hid]
  case atHardware =>
    intro hnone hunknown
    rw [hwithout hnone, instrumentOutlet]
    cases hid : part.instrument.node with
    | none => rfl
    | some id => exact destination_of_unknown _ q (hunknown id hid)

/-- Of five effects the first has no template, the next two are links, and the fourth is a node. -/
theorem runsThrough_planPart_song :
    let lead : PlayedPart Rat := ⟨"lead", ⟨some "lead", .synth, []⟩,
      [⟨none, .unknown "shimmer", []⟩, ⟨none, .delay, []⟩, ⟨none, .chorus, []⟩,
        ⟨some "space", .reverb, []⟩, ⟨none, .filter, []⟩],
      [⟨0, [.midi 60], 0, 1, 0.8, none, none, none, []⟩], .once, none⟩
    let song : Performance Rat := ⟨formatName, formatVersion, 120, .common, none, .constant 120,
      [], [], ⟨none, none, none⟩, [⟨"lead", .synth, [], none, none⟩,
        ⟨"space", .reverb, [], none, none⟩],
      [⟨"lead", "master"⟩, ⟨"space", "master"⟩], [lead], [], [], []⟩
    let graph := (planGraph .empty song).value.1
    let planned := planPart song graph (planGraph .empty song).value.2 0 "lead" lead
    (∃ n ∈ lead.notes, IsPlayable song.tempo (periodBeats song.tempo lead) n) ∧
      planned.value.1.effects.flatMap (Statement.lines "s") =
        [.plain "// effect 'shimmer' is not supported and was skipped",
          .plain "~fx_lead_1 = Synth.tail(s, \\fx_lead_1, [\\in, ~bus_lead_1, \\out, ~bus_lead_2]);",
          .plain "~fx_lead_2 = Synth.tail(s, \\fx_lead_2, [\\in, ~bus_lead_2, \\out, ~bus_space]);"] ∧
      planned.value.1.RunsThrough "s" graph lead (.bus "lead_1") ["lead_1", "lead_2"]
        (.bus "space") ∧
      ∀ j, planned.diagnostics.filter (fun d => d.path == some (effectPath 0 j)) =
        (effectRemark? graph.nodes lead.effects j).toList.map (.warning (effectPath 0 j)) := by
  intro lead song graph planned
  have hplayed : ∃ n ∈ lead.notes, IsPlayable song.tempo (periodBeats song.tempo lead) n :=
    ⟨_, List.mem_singleton_self _, List.cons_ne_nil _ _, nofun, by decide +kernel⟩
  obtain ⟨inlet, links, stop, hruns, hreports⟩ :=
    runsThrough_planPart "s" [] (planGraph .empty song).value.2 song song 0 "lead" lead hplayed
  have hinlet : (planned.value.1.statements.flatMap (Statement.lines "s")).filterMap
      patternOutlet? = [.bus "lead_1"] := by decide +kernel
  have hlinks : (planned.value.1.buses.flatMap (Statement.lines "s")).filterMap
      (allocatedBus? "s") = ["lead_1", "lead_2"] := by decide +kernel
  obtain rfl : links = ["lead_1", "lead_2"] := hruns.buses.symm.trans hlinks
  obtain rfl : inlet = .bus "lead_1" :=
    List.singleton_injective (hruns.played.symm.trans hinlet)
  obtain rfl : stop = .bus "space" := hruns.atEffect _ (by decide +kernel)
  exact ⟨hplayed, by decide +kernel, hruns, hreports⟩

/-- The remarks on a list of five effects of which the first has no template and the fourth is a
node. -/
example :
    let nodes : List NamedNode := [⟨"space", "space", .effect⟩]
    let effects : List (PlacedDevice Rat) := [⟨none, .unknown "shimmer", []⟩, ⟨none, .delay, []⟩,
      ⟨none, .chorus, []⟩, ⟨some "space", .reverb, []⟩, ⟨none, .filter, []⟩]
    (List.range 5).map (effectRemark? nodes effects) =
      [some "unsupported effect 'shimmer', left out of the chain", none, none,
        some "effects after a graph effect are not reachable, dropped", none] := by
  decide +kernel

end Partitura.Script
