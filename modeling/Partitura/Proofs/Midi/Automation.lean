import Partitura.Proofs.Midi.Notes
import Partitura.Proofs.Performance.Faithful
import Partitura.Proofs.Text.Pieces

/-!
# Where automated values go

The target of an automated value may start with the id of a node and a dot, and then the value is
for the parts that play through this node. A target is cut at its first dot. So a node whose id has
a dot itself is never found in a target, and what is automated on it goes to every part.
-/

namespace Partitura

/-! ## Targets -/

variable {α : Type}

theorem isSome_node?_iff (s : Score α) (id : String) :
    (s.node? id).isSome = true ↔ ∃ n ∈ s.graph, n.id = id := by
  simp [Score.node?, List.find?_isSome]

theorem automationTarget_of_notMem {s : Score α} {n : GraphNode α} (hn : n ∈ s.graph)
    (hdot : '.' ∉ n.id.toList) (parameter : String) :
    automationTarget s (n.id ++ "." ++ parameter) = (some n.id, parameter) := by
  have hsplit : Text.splitFirst '.' (n.id ++ "." ++ parameter) = some (n.id, parameter) :=
    splitFirst_append hdot
  have hnode : (s.node? n.id).isSome = true := (isSome_node?_iff s n.id).mpr ⟨n, hn, rfl⟩
  simp [automationTarget, hsplit, hnode]

theorem automationTarget_of_unnamed {s : Score α} {target : String}
    (h : ∀ m ∈ s.graph, '.' ∉ m.id.toList → ¬ Opens (m.id ++ ".") target) :
    automationTarget s target = (none, target) := by
  unfold automationTarget
  split
  · next head rest hsplit =>
    refine if_neg fun hnode => ?_
    obtain ⟨m, hm, rfl⟩ := (isSome_node?_iff s head).mp hnode
    refine h m hm (notMem_of_splitFirst hsplit) ?_
    rw [← splitFirst_eq_some hsplit]
    exact (opens_self (m.id ++ ".")).append rest
  · rfl

variable [Scalar α]

theorem exists_played {s : Score α} {a : AutomationPoint α} (h : a ∈ s.automation) :
    ∃ e ∈ (perform s).automation, a.KeptAs (perform s).timeLine e ∧
      (e.node, e.parameter) = automationTarget s a.target := by
  obtain ⟨i, hi⟩ := List.mem_iff_getElem?.mp h
  refine ⟨(playAutomation s (perform s).timeLine i a).value, ?_, keptAs_playAutomation s _ i a, rfl⟩
  rw [perform_automation]
  refine (List.mergeSort_perm _ _).mem_iff.mpr (List.mem_iff_getElem?.mpr ⟨i, ?_⟩)
  rw [Outcome.getElem?_collect, hi]
  rfl

/-- A performance without what is automated on a node. -/
def Performance.withoutNode (p : Performance α) (id : String) : Performance α :=
  { p with automation := p.automation.filter fun e => e.node != some id }

namespace Midi

omit [Scalar α] in
theorem filter_concerns_withoutNode (p : Performance α) {id : String} {instrument : PlacedDevice α}
    (h : instrument.node ≠ some id) : (p.withoutNode id).automation.filter (concerns instrument) =
      p.automation.filter (concerns instrument) := by
  rw [Performance.withoutNode, List.filter_filter]
  refine List.filter_congr fun e _ => ?_
  by_cases hnode : e.node = some id
  · simp [concerns, hnode, Ne.symm h]
  · simp [hnode]

theorem getElem?_tracks_withoutNode (settings : Settings) (p : Performance α) {id : String}
    {i : Nat} {part : PlayedPart α} (hpart : p.parts[i]? = some part) (h : part.instrument.node ≠ some id) :
    (tracks settings (p.withoutNode id)).value[i + 1]? = (tracks settings p).value[i + 1]? := by
  obtain ⟨channel, hchannel, -⟩ := getElem?_assignChannels hpart 0
  rw [getElem?_tracks settings (p.withoutNode id) hpart hchannel,
    getElem?_tracks settings p hpart hchannel]
  simp only [value_partEvents, automationEvents, filter_concerns_withoutNode p h]
  rfl

/-- The control change of an automated value stands in the track of a part, if its kind of
instrument has a controller for the parameter. -/
def Shows (settings : Settings) (p : Performance α) (i : Nat) (part : PlayedPart α)
    (a : AutomationPoint α) (parameter : String) : Prop :=
  ∀ controller, settings.controllers.lookup part.instrument.kind parameter = some controller →
    ∃ track channel, (tracks settings p).value[i + 1]? = some track ∧
      (assignChannels 0 p.parts)[i]? = some channel ∧
      TimedEvent.send ((⟨p.tempo, settings.ticksPerBeat⟩ : Clock α).tick (p.timeLine.place a.time))
        channel (.control controller (automationValue a.value)) ∈ track

theorem shows_of_concerns (settings : Settings) {p : Performance α} {i : Nat} {part : PlayedPart α}
    (hpart : p.parts[i]? = some part) {a : AutomationPoint α} {e : PlayedAutomation α}
    (he : e ∈ p.automation) (hkept : a.KeptAs p.timeLine e)
    (h : concerns part.instrument e = true) : Shows settings p i part a e.parameter := by
  intro controller hcontroller
  obtain ⟨channel, hchannel, -⟩ := getElem?_assignChannels hpart 0
  refine ⟨_, channel, getElem?_tracks settings p hpart hchannel, hchannel, ?_⟩
  rw [value_partEvents]
  refine List.mem_append_right _ (List.mem_flatMap.mpr ⟨e, List.mem_filter.mpr ⟨he, h⟩, ?_⟩)
  rw [automationEvent, hcontroller, ← hkept.time, ← hkept.value]
  exact List.mem_singleton_self _

/-- What is automated on a parameter of a node is played on it: it shows in the tracks of the parts
that play through the node, and in no other track of a part. -/
structure Reaches (s : Score α) (id parameter : String) : Prop where
  resolved : automationTarget s (id ++ "." ++ parameter) = (some id, parameter)
  played : ∀ a ∈ s.automation, a.target = id ++ "." ++ parameter →
    ∃ e ∈ (perform s).automation, a.KeptAs (perform s).timeLine e ∧
      e.node = some id ∧ e.parameter = parameter
  own : ∀ a ∈ s.automation, a.target = id ++ "." ++ parameter → ∀ settings i part,
    (perform s).parts[i]? = some part → part.instrument.node = some id →
    Shows settings (perform s) i part a parameter
  others : ∀ settings i part, (perform s).parts[i]? = some part → part.instrument.node ≠ some id →
    (tracks settings ((perform s).withoutNode id)).value[i + 1]? =
      (tracks settings (perform s)).value[i + 1]?

/-- What is automated under a target is played on no node, and shows in the track of every part. -/
structure ReachesAll (s : Score α) (target : String) : Prop where
  resolved : automationTarget s target = (none, target)
  all : ∀ a ∈ s.automation, a.target = target → ∀ settings i part,
    (perform s).parts[i]? = some part → Shows settings (perform s) i part a target

theorem reaches_of_target {s : Score α} {id parameter : String}
    (h : automationTarget s (id ++ "." ++ parameter) = (some id, parameter)) :
    Reaches s id parameter := by
  have hplayed (a : AutomationPoint α) (ha : a ∈ s.automation)
      (htarget : a.target = id ++ "." ++ parameter) : ∃ e ∈ (perform s).automation,
      a.KeptAs (perform s).timeLine e ∧ e.node = some id ∧ e.parameter = parameter := by
    obtain ⟨e, he, hkept, heq⟩ := exists_played ha
    rw [htarget, h] at heq
    exact ⟨e, he, hkept, Prod.mk.inj heq⟩
  constructor
  case resolved => exact h
  case played => exact hplayed
  case own =>
    intro a ha htarget settings i part hpart hnode
    obtain ⟨e, he, hkept, hid, rfl⟩ := hplayed a ha htarget
    exact shows_of_concerns settings hpart he hkept (by simp [concerns, hid, hnode])
  case others =>
    exact fun settings i part hpart hnode => getElem?_tracks_withoutNode settings _ hpart hnode

theorem reachesAll_of_target {s : Score α} {target : String}
    (h : automationTarget s target = (none, target)) : ReachesAll s target := by
  refine ⟨h, fun a ha htarget settings i part hpart => ?_⟩
  obtain ⟨e, he, hkept, heq⟩ := exists_played ha
  rw [htarget, h] at heq
  obtain ⟨hid, rfl⟩ := Prod.mk.inj heq
  exact shows_of_concerns settings hpart he hkept (by simp [concerns, hid])

/-- What is automated on a node reaches it exactly if there is no dot in its id. If there is one, it
is written for every part, unless the target starts with another node's id and a dot. -/
theorem reaches_iff_notMem {s : Score α} {n : GraphNode α} (hn : n ∈ s.graph) {parameter : String}
    (hother : ∀ m ∈ s.graph, m.id ≠ n.id → ¬ Opens (m.id ++ ".") (n.id ++ "." ++ parameter)) :
    (Reaches s n.id parameter ↔ '.' ∉ n.id.toList) ∧
      ('.' ∈ n.id.toList → ReachesAll s (n.id ++ "." ++ parameter)) := by
  have hdotted (hdot : '.' ∈ n.id.toList) : ReachesAll s (n.id ++ "." ++ parameter) := by
    refine reachesAll_of_target (automationTarget_of_unnamed fun m hm hplain => ?_)
    refine hother m hm fun hsame => hplain ?_
    rwa [hsame]
  refine ⟨⟨fun hreaches hdot => ?_, fun hdot => ?_⟩, hdotted⟩
  · have hnone := (hdotted hdot).resolved
    rw [hreaches.resolved] at hnone
    cases hnone
  · exact reaches_of_target (automationTarget_of_notMem hn hdot parameter)

/-- What is automated on the lead, whose id has a dot, is written into the track of the bass. -/
theorem reaches_iff_notMem_bass :
    let lead : GraphNode Rat := ⟨"lead.1", .synth, [], none, none⟩
    let bass : GraphNode Rat := ⟨"bass", .monoSynth, [], none, none⟩
    let part (n : GraphNode Rat) : Part Rat :=
      { Part.labelled n.id (some []) with synthRef := some n.id }
    let sweep : AutomationPoint Rat := ⟨"lead.1.cutoff", .seconds 0, 64, none⟩
    let duo : Score Rat := { Score.blank with
      graph := [lead, bass], parts := some [part lead, part bass], automation := [sweep] }
    lead ∈ duo.graph ∧
      (∀ m ∈ duo.graph, m.id ≠ lead.id → ¬ Opens (m.id ++ ".") (lead.id ++ "." ++ "cutoff")) ∧
      ¬ Reaches duo lead.id "cutoff" ∧
      ∃ played, (perform duo).parts[1]? = some played ∧ played.instrument.node = some bass.id ∧
        Settings.standard.controllers.lookup played.instrument.kind "lead.1.cutoff" = some 74 ∧
        Shows Settings.standard (perform duo) 1 played sweep "lead.1.cutoff" := by
  intro lead bass part sweep duo
  have hlead : lead ∈ duo.graph := List.mem_cons_self
  have hother : ∀ m ∈ duo.graph, m.id ≠ lead.id →
      ¬ Opens (m.id ++ ".") (lead.id ++ "." ++ "cutoff") := by decide
  have hdot : '.' ∈ lead.id.toList := by decide
  obtain ⟨hreaches, hall⟩ := reaches_iff_notMem hlead hother
  refine ⟨hlead, hother, fun h => hreaches.mp h hdot, _, rfl, rfl, by decide +kernel, ?_⟩
  exact (hall hdot).all sweep List.mem_cons_self rfl Settings.standard 1 _ rfl

end Midi

end Partitura
