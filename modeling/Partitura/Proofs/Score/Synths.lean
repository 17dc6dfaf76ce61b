import Partitura.Proofs.Numbered
import Partitura.Proofs.Score.Entries

/-!
# The instruments of parts

A part outside the score format asks for its instrument by the id of a node, by the name of a kind
or by describing a device, or for none at all. What it asks for it gets, and only a part without an
instrument is given one: the first of the graph, or that of a graph made for it. So a part never
names a node that is not there.
-/

namespace Partitura

variable {α : Type}

def askedSynth (entry : Json α) : Option (Json α) :=
  firstOf (fieldsOf entry) ["synthRef", "synth", "instrument"]

inductive AsksFor (graph : List (GraphNode α)) (entry : Json α) :
    Option String → Option (InlineDevice α) → Prop where
  | node {id : String} : askedSynth entry = some (.str id) → id ∈ graph.map GraphNode.id →
    AsksFor graph entry (some id) none
  | kind {name : String} : askedSynth entry = some (.str name) →
    name ∉ graph.map GraphNode.id → AsksFor graph entry none (some ⟨DeviceKind.parse name, []⟩)
  | device {fields : Fields α} {d : InlineDevice α} : askedSynth entry = some (.obj fields) →
    inlineDeviceOf (.obj fields) = some d → AsksFor graph entry none (some d)

theorem any_id_iff (graph : List (GraphNode α)) (id : String) :
    (graph.any fun n => n.id == id) = true ↔ id ∈ graph.map GraphNode.id := by
  simp [List.any_eq_true, List.mem_map]

theorem AsksFor.synthOf_eq {graph : List (GraphNode α)} {entry : Json α} {ref : Option String}
    {device : Option (InlineDevice α)} (h : AsksFor graph entry ref device) :
    synthOf graph (askedSynth entry) = (ref, device) := by
  unfold synthOf
  cases h with
  | node hasked hid =>
    rw [hasked]
    exact if_pos ((any_id_iff graph _).mpr hid)
  | kind hasked hname =>
    rw [hasked]
    exact if_neg fun hany => hname ((any_id_iff graph _).mp hany)
  | device hasked hdevice =>
    rw [hasked]
    exact congrArg (none, ·) hdevice

theorem AsksFor.isSome {graph : List (GraphNode α)} {entry : Json α} {ref : Option String}
    {device : Option (InlineDevice α)} (h : AsksFor graph entry ref device) :
    (ref.isSome || device.isSome) = true := by
  cases h <;> rfl

theorem mem_of_synthOf {graph : List (GraphNode α)} {asked : Option (Json α)} {id : String}
    (h : (synthOf graph asked).1 = some id) : id ∈ graph.map GraphNode.id := by
  unfold synthOf at h
  split at h
  · split at h
    · next hany =>
      cases h
      exact (any_id_iff graph _).mp hany
    · cases h
  · cases h
  · cases h

/-! ## Parts that are given an instrument -/

theorem Part.playThrough_of_hasSynth {p : Part α} (h : p.hasSynth = true) (id : String) :
    p.playThrough id = p := if_pos h

theorem Part.playThrough_of_not_hasSynth {p : Part α} (h : ¬ p.hasSynth = true) (id : String) :
    p.playThrough id = { p with synthRef := some id } := if_neg h

theorem Part.hasSynth_playThrough (id : String) (p : Part α) :
    (p.playThrough id).hasSynth = true := by
  by_cases h : p.hasSynth = true
  · rwa [Part.playThrough_of_hasSynth h]
  · rw [Part.playThrough_of_not_hasSynth h]
    rfl

theorem getD_map_playThrough (id : String) (parts : Option (List (Part α))) :
    (parts.map (List.map (Part.playThrough id))).getD [] =
      (parts.getD []).map (Part.playThrough id) := by
  cases parts <;> rfl

theorem Score.partList_assignSynths (s : Score α) : s.assignSynths.partList = s.partList ∨
    ∃ id, s.assignSynths.partList = s.partList.map (Part.playThrough id) := by
  rcases s.parts_assignSynths with h | ⟨id, h⟩
  · exact .inl (congrArg (Option.getD · []) h)
  · exact .inr ⟨id, (congrArg (Option.getD · []) h).trans (getD_map_playThrough id s.parts)⟩

def Score.Named (s : Score α) : Prop :=
  ∀ p ∈ s.partList, ∀ id ∈ p.synthRef, id ∈ s.graph.map GraphNode.id

theorem named_playThrough {id : String} {ids : List String} (hid : id ∈ ids) {parts : List (Part α)}
    (h : ∀ p ∈ parts, ∀ ref ∈ p.synthRef, ref ∈ ids) :
    ∀ p ∈ parts.map (Part.playThrough id), ∀ ref ∈ p.synthRef, ref ∈ ids := by
  intro q hq ref href
  obtain ⟨p, hp, rfl⟩ := List.mem_map.mp hq
  by_cases hsynth : p.hasSynth = true
  · rw [Part.playThrough_of_hasSynth hsynth] at href
    exact h p hp ref href
  · rw [Part.playThrough_of_not_hasSynth hsynth] at href
    cases href
    exact hid

theorem Score.Named.assignSynths {s : Score α} (h : s.Named) : s.assignSynths.Named := by
  unfold Score.Named at h ⊢
  rcases s.assignSynths_cases with ⟨-, heq⟩ | ⟨n, hn, -, heq⟩ | ⟨hempty, heq⟩ | ⟨-, -, heq⟩
  · rwa [heq]
  · rw [heq, Score.partList, getD_map_playThrough]
    exact named_playThrough (List.mem_map_of_mem hn) h
  · rw [heq, Score.partList, getD_map_playThrough]
    refine named_playThrough (List.mem_singleton_self _) fun p hp ref href => ?_
    -- no part can name a node of a graph without nodes
    have hnode := h p hp ref href
    rw [hempty] at hnode
    cases hnode
  · rwa [heq]

/-- Where the graph has no nodes or has an instrument, no part is left without one. -/
theorem Score.hasSynth_assignSynths {s : Score α}
    (h : s.graph = [] ∨ ∃ n ∈ s.graph, n.kind.role = .instrument) :
    ∀ p ∈ s.assignSynths.partList, p.hasSynth = true := by
  have hgiven (id : String) : ∀ p ∈ (s.parts.map (List.map (Part.playThrough id))).getD [],
      p.hasSynth = true := by
    intro q hq
    rw [getD_map_playThrough] at hq
    obtain ⟨p, -, rfl⟩ := List.mem_map.mp hq
    exact p.hasSynth_playThrough id
  rcases s.assignSynths_cases with ⟨hall, heq⟩ | ⟨n, -, -, heq⟩ | ⟨-, heq⟩ | ⟨hnodes, hnone, -⟩
  · rw [heq]
    exact List.all_eq_true.mp hall
  · rw [heq]
    exact hgiven n.id
  · rw [heq]
    exact hgiven defaultSynthId
  · rcases h with hempty | ⟨n, hn, hrole⟩
    · exact absurd hempty hnodes
    · exact absurd hrole (hnone n hn)

/-! ## Inputs -/

def PlaysAsAsked (graph : List (GraphNode α)) (entry : String × Json α) (p : Part α) : Prop :=
  ∀ ref device, AsksFor graph entry.2 ref device → p.synthRef = ref ∧ p.synth = device

theorem PlaysAsAsked.playThrough {graph : List (GraphNode α)} {entry : String × Json α}
    {p : Part α} (h : PlaysAsAsked graph entry p) (id : String) :
    PlaysAsAsked graph entry (p.playThrough id) := by
  intro ref device hasks
  obtain ⟨rfl, rfl⟩ := h ref device hasks
  rw [Part.playThrough_of_hasSynth hasks.isSome]
  exact ⟨rfl, rfl⟩

variable [Scalar α]

theorem ReadFrom.playsAsAsked {graph : List (GraphNode α)} {entry : String × Json α} {p : Part α}
    (h : ReadFrom graph entry p) : PlaysAsAsked graph entry p := by
  intro ref device hasks
  exact Prod.mk.inj (h.synth.trans hasks.synthOf_eq)

theorem ReadFrom.named {graph : List (GraphNode α)} {entry : String × Json α} {p : Part α}
    (h : ReadFrom graph entry p) : ∀ id ∈ p.synthRef, id ∈ graph.map GraphNode.id := by
  intro id hid
  have hfirst := congrArg Prod.fst h.synth
  exact mem_of_synthOf (hfirst.symm.trans hid)

/-- The instruments of a score that an input is read as, of whose nodes those given can be read. -/
structure Instrumented (shape : String) (j : Json α) (nodes : List (GraphNode α))
    (s : Score α) : Prop where
  readable : Sifted GraphNode.read (listAt "audioGraph" j) nodes
  graph : s.graph = nodes ∨ nodes = [] ∧ s.graph = [defaultSynth]
  distinct : (nodes.map GraphNode.id).Nodup → (s.graph.map GraphNode.id).Nodup
  named : s.Named
  asked : List.Forall₂ (PlaysAsAsked nodes) (partEntries shape j) s.partList
  all : shape ≠ "sequences" → (nodes = [] ∨ ∃ n ∈ nodes, n.kind.role = .instrument) →
    ∀ p ∈ s.partList, p.hasSynth = true

/-- Every part of an input outside the score format names a node that is there, plays what it asks
for, and is left without an instrument only where the graph has nodes but no instrument. -/
theorem instrumented_normalize {shape : String} {j : Json α} (h : TakenBy shape j)
    (hshape : shape ∈ ["tracks", "sequences", "note-array"]) :
    ∃ nodes, Instrumented shape j nodes (normalize j) := by
  obtain ⟨parts, hparts, heq⟩ := normalize_of_takenBy h hshape
  let base : Score α := { headerOf (fieldsOf j) with parts := some parts }
  have hreadable : Sifted GraphNode.read (listAt "audioGraph" j) base.graph := by
    rw [← listAt_fieldsOf]
    exact sifted_readable GraphNode.read "audioGraph" (fieldsOf j)
  have hnamed : base.Named :=
    forall_right_of_forall₂ (hparts.imp fun _ _ hread => hread.named)
  have hasked : List.Forall₂ (PlaysAsAsked base.graph) (partEntries shape j) base.partList :=
    hparts.imp fun _ _ hread => hread.playsAsAsked
  refine ⟨base.graph, ?_⟩
  rw [heq]
  split
  · next hlisted =>
    exact ⟨hreadable, .inl rfl, id, hnamed, hasked, fun hother => absurd hlisted hother⟩
  · refine ⟨hreadable, ?_, ?_, hnamed.assignSynths, ?_, fun _ => Score.hasSynth_assignSynths⟩
    · exact base.graph_assignSynths.imp_right id
    · intro hdistinct
      rcases base.graph_assignSynths with hsame | ⟨-, hdefault⟩
      · rwa [hsame]
      · rw [hdefault]
        exact List.nodup_singleton _
    · rcases base.partList_assignSynths with hsame | ⟨id, hgiven⟩
      · rwa [hsame]
      · rw [hgiven]
        exact List.forall₂_map_right_iff.mpr (hasked.imp fun _ _ ha => ha.playThrough id)

/-- One track asks for nothing, one names a node and one a kind; the first is given the node. -/
theorem instrumented_normalize_trio :
    let lead : Json Float := .obj [("id", .str "lead"), ("type", .str "fm")]
    let trio : Json Float := .obj [("audioGraph", .arr [.null, lead]),
      ("tracks", .obj [("a", .arr []), ("b", .obj [("instrument", .str "lead")]),
        ("c", .obj [("synth", .str "am")])])]
    TakenBy "tracks" trio ∧ (∃ nodes, Instrumented "tracks" trio nodes (normalize trio)) ∧
      (normalize trio).partList.map (fun p => (p.synthRef, p.synth.map InlineDevice.kind)) =
        [(some "lead", none), (some "lead", none), (none, some .amSynth)] := by
  intro lead trio
  have htaken : TakenBy "tracks" trio := by decide +kernel
  exact ⟨htaken, instrumented_normalize htaken (by simp), by decide +kernel⟩

end Partitura
