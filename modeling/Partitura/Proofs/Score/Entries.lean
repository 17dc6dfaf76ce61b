import Partitura.Proofs.Score.Described

/-!
# The entries of an input

Outside the score format nothing is reported as rejected, so nothing may get lost on the way. Each
part is read from one entry of the input, each of its notes from one of the objects in the entry's
list of notes, and each list of the header and of a note from the entries that can be read alone;
all of them come in the order of the input. Instruments are given to the parts in a second pass,
which adds a node to a graph that has none and changes no other list.
-/

namespace Partitura

open Json

variable {α : Type}

/-! ## Lists of which some entries can be read -/

/-- The values of the entries of a list that can be read alone, in the order of the list. -/
inductive Sifted {β : Type} (read : Json α → Except DecodeError β) :
    List (Json α) → List β → Prop where
  | nil : Sifted read [] []
  | kept {item : Json α} {v : β} {items : List (Json α)} {vs : List β} :
    read item = .ok v → Sifted read items vs → Sifted read (item :: items) (v :: vs)
  | skipped {item : Json α} {e : DecodeError} {items : List (Json α)} {vs : List β} :
    read item = .error e → Sifted read items vs → Sifted read (item :: items) vs

def listAt (key : String) (j : Json α) : List (Json α) := ((j.get? key).bind Json.array?).getD []

theorem sifted_filterMap {β : Type} (read : Json α → Except DecodeError β)
    (items : List (Json α)) :
    Sifted read items (items.filterMap fun item => (read item).toOption) := by
  induction items with
  | nil => exact .nil
  | cons item rest ih =>
    rw [List.filterMap_cons]
    cases h : read item with
    | ok v => exact .kept h ih
    | error e => exact .skipped h ih

theorem sifted_readable {β : Type} (read : Json α → Except DecodeError β) (key : String)
    (fields : Fields α) : Sifted read (listAt key (.obj fields))
      (readable read (Json.lookup key fields)) :=
  sifted_filterMap read _

/-! ## Parts -/

def fieldsOf (j : Json α) : Fields α := j.object?.getD []

theorem listAt_fieldsOf (key : String) (j : Json α) :
    listAt key (.obj (fieldsOf j)) = listAt key j := by
  cases j <;> rfl

/-- The parts that an input of a shape describes, each with the label that it gets if it has none
of its own. -/
def partEntries (shape : String) (j : Json α) : List (String × Json α) :=
  match shape with
  | "tracks" => ((j.get? "tracks").bind Json.object?).getD []
  | "sequences" =>
    ((["sequences", "parts"].findSome? fun key => (j.get? key).bind Json.array?).getD []).zipIdx.map
      fun (item, i) => ("sequence" ++ toString (i + 1), item)
  | "note-array" => [(defaultPartLabel, j)]
  | _ => []

/-! ## Giving instruments -/

def defaultSynth : GraphNode α := ⟨defaultSynthId, .synth, [], none, none⟩

theorem Score.assignSynths_cases (s : Score α) :
    (s.partList.all Part.hasSynth = true ∧ s.assignSynths = s) ∨
    (∃ n ∈ s.graph, n.kind.role = .instrument ∧
      s.assignSynths = { s with parts := s.parts.map (List.map (Part.playThrough n.id)) }) ∨
    (s.graph = [] ∧ s.assignSynths =
      { s with
        graph := [defaultSynth]
        connections := s.connections ++ [.between defaultSynthId masterId]
        parts := s.parts.map (List.map (Part.playThrough defaultSynthId)) }) ∨
    (s.graph ≠ [] ∧ (∀ n ∈ s.graph, n.kind.role ≠ .instrument) ∧ s.assignSynths = s) := by
  unfold Score.assignSynths
  split
  · next hall => exact .inl ⟨hall, rfl⟩
  · dsimp only
    split
    · next n hfind =>
      have hrole := List.find?_some hfind
      exact .inr (.inl ⟨n, List.mem_of_find?_eq_some hfind, eq_of_beq hrole, rfl⟩)
    · next hnone =>
      split
      · next hempty => exact .inr (.inr (.inl ⟨List.isEmpty_iff.mp hempty, rfl⟩))
      · next hnodes =>
        refine .inr (.inr (.inr ⟨fun h => hnodes (List.isEmpty_iff.mpr h), fun n hn => ?_, rfl⟩))
        simpa using List.find?_eq_none.mp hnone n hn

theorem Score.assignSynths_eq (s : Score α) : s.assignSynths =
    { s with
      graph := s.assignSynths.graph
      connections := s.assignSynths.connections
      parts := s.assignSynths.parts } := by
  rcases s.assignSynths_cases with ⟨-, h⟩ | ⟨n, -, -, h⟩ | ⟨-, h⟩ | ⟨-, -, h⟩ <;> rw [h]

theorem Score.graph_assignSynths (s : Score α) : s.assignSynths.graph = s.graph ∨
    s.graph = [] ∧ s.assignSynths.graph = [defaultSynth] := by
  rcases s.assignSynths_cases with ⟨-, h⟩ | ⟨n, -, -, h⟩ | ⟨hempty, h⟩ | ⟨-, -, h⟩
  · exact .inl (by rw [h])
  · exact .inl (by rw [h])
  · exact .inr ⟨hempty, by rw [h]⟩
  · exact .inl (by rw [h])

theorem Score.parts_assignSynths (s : Score α) : s.assignSynths.parts = s.parts ∨
    ∃ id, s.assignSynths.parts = s.parts.map (List.map (Part.playThrough id)) := by
  rcases s.assignSynths_cases with ⟨-, h⟩ | ⟨n, -, -, h⟩ | ⟨-, h⟩ | ⟨-, -, h⟩
  · exact .inl (by rw [h])
  · exact .inr ⟨n.id, by rw [h]⟩
  · exact .inr ⟨defaultSynthId, by rw [h]⟩
  · exact .inl (by rw [h])

theorem label_playThrough (id : String) (p : Part α) : (p.playThrough id).label = p.label := by
  unfold Part.playThrough
  split <;> rfl

variable [Scalar α]

/-! ## Reading parts -/

structure ReadFrom (graph : List (GraphNode α)) (entry : String × Json α) (p : Part α) : Prop where
  label : p.label = (firstText (fieldsOf entry.2) ["label", "name", "id", "title"]).getD entry.1
  synth : (p.synthRef, p.synth) =
    synthOf graph (firstOf (fieldsOf entry.2) ["synthRef", "synth", "instrument"])
  notes : p.noteList = describedNotes entry.2

theorem readFrom_partOf (graph : List (GraphNode α)) (label : String) (fields : Fields α) :
    ReadFrom graph (label, .obj fields) (partOf graph label fields) :=
  ⟨rfl, rfl, noteList_partOf graph label fields⟩

theorem readFrom_labelled (graph : List (GraphNode α)) (label : String) {j : Json α}
    {notes : Option (List (Note α))} (hj : ∀ fields, j = .obj fields → False)
    (hnotes : notes.getD [] = notesOf j) :
    ReadFrom graph (label, j) (Part.labelled label notes) := by
  have hnone : fieldsOf j = [] := by
    cases j with
    | obj fields => exact (hj fields rfl).elim
    | _ => rfl
  refine ⟨?_, ?_, hnotes.trans (noteEntries_of_not_obj hj).symm⟩
  · rw [hnone]
    rfl
  · rw [hnone]
    rfl

theorem readFrom_trackOf (graph : List (GraphNode α)) (track : String × Json α) :
    ReadFrom graph track (trackOf graph track) := by
  unfold trackOf
  split
  · exact readFrom_partOf _ _ _
  · next hother => exact readFrom_labelled _ _ hother rfl

theorem readFrom_listedPart (graph : List (GraphNode α)) (item : Json α) (i : Nat) :
    ReadFrom graph ("sequence" ++ toString (i + 1), item) (listedPart graph (item, i)) := by
  unfold listedPart
  dsimp only
  split
  · exact readFrom_partOf _ _ _
  · next hother =>
    refine readFrom_labelled _ _ hother ?_
    cases item <;> rfl

/-- What an input of a shape is read as: parts from its entries, and in all shapes but one a second
pass gives them instruments. -/
theorem normalize_of_takenBy {shape : String} {j : Json α} (h : TakenBy shape j)
    (hshape : shape ∈ ["tracks", "sequences", "note-array"]) : ∃ parts,
    List.Forall₂ (ReadFrom (headerOf (fieldsOf j)).graph) (partEntries shape j) parts ∧
      normalize j = if shape = "sequences" then { headerOf (fieldsOf j) with parts := some parts }
        else { headerOf (fieldsOf j) with parts := some parts }.assignSynths := by
  simp only [List.mem_cons, List.not_mem_nil, or_false] at hshape
  rcases hshape with rfl | rfl | rfl
  · have hread := read?_of_takenBy (show trackShape ∈ shapes by simp [shapes]) h
    obtain ⟨fields, hfields, hread⟩ := Option.bind_eq_some_iff.mp hread
    obtain ⟨tracks, htracks, hread⟩ := Option.bind_eq_some_iff.mp hread
    cases j with
    | obj _ =>
      cases hfields
      refine ⟨tracks.map (trackOf (headerOf fields).graph), ?_, (Option.some.inj hread).symm⟩
      show List.Forall₂ _ (((Json.lookup "tracks" fields).bind Json.object?).getD []) _
      rw [htracks]
      exact List.forall₂_map_right_iff.mpr
        (List.forall₂_same.mpr fun track _ => readFrom_trackOf _ track)
    | _ => cases hfields
  · have hread := read?_of_takenBy (show partShape ∈ shapes by simp [shapes]) h
    obtain ⟨fields, hfields, hread⟩ := Option.bind_eq_some_iff.mp hread
    obtain ⟨items, hitems, hread⟩ := Option.bind_eq_some_iff.mp hread
    cases j with
    | obj _ =>
      cases hfields
      refine ⟨items.zipIdx.map (listedPart (headerOf fields).graph), ?_,
        (Option.some.inj hread).symm⟩
      show List.Forall₂ _ (((["sequences", "parts"].findSome? fun key =>
        (Json.lookup key fields).bind Json.array?).getD []).zipIdx.map _) _
      rw [hitems]
      exact List.forall₂_map_left_iff.mpr (List.forall₂_map_right_iff.mpr
        (List.forall₂_same.mpr fun item _ => readFrom_listedPart _ item.1 item.2))
    | _ => cases hfields
  · have hread := read?_of_takenBy (show noteListShape ∈ shapes by simp [shapes]) h
    obtain ⟨items, hitems, hread⟩ := Option.bind_eq_some_iff.mp hread
    cases j with
    | arr _ =>
      dsimp only at hread
      split at hread
      · refine ⟨[Part.labelled defaultPartLabel (some (notesOf (.arr _)))], ?_,
          (Option.some.inj hread).symm⟩
        exact .cons (readFrom_labelled _ _ (fun _ hobj => by cases hobj) rfl) .nil
      · cases hread
    | _ => cases hitems

/-! ## Nothing lost, invented or moved -/

structure HoldsNote (fields : Fields α) (n : Note α) : Prop where
  reading : n = noteOf fields
  modulations : Sifted Modulation.read (listAt "modulations" (.obj fields)) n.modulations

structure HoldsEntry (entry : String × Json α) (p : Part α) : Prop where
  label : p.label = (firstText (fieldsOf entry.2) ["label", "name", "id", "title"]).getD entry.1
  notes : List.Forall₂ HoldsNote (noteEntries entry.2) p.noteList

/-- A score with a part for each entry of an input, and with the entries of its lists that can be
read. -/
structure HoldsEntries (shape : String) (j : Json α) (s : Score α) : Prop where
  parts : ∃ parts, s.parts = some parts ∧ List.Forall₂ HoldsEntry (partEntries shape j) parts
  tempoMap : Sifted TempoPoint.read (listAt "tempoMap" j) s.tempoMap
  meterMap : Sifted MeterPoint.read (listAt "timeSignatureMap" j) s.meterMap
  keyMap : Sifted KeyPoint.read (listAt "keySignatureMap" j) s.keyMap
  graph : ∃ nodes, Sifted GraphNode.read (listAt "audioGraph" j) nodes ∧
    (s.graph = nodes ∨ nodes = [] ∧ s.graph = [defaultSynth])
  automation : Sifted AutomationPoint.read (listAt "automation" j) s.automation
  remarks : Sifted Remark.read (listAt "annotations" j) s.remarks

theorem ReadFrom.holdsEntry {graph : List (GraphNode α)} {entry : String × Json α} {p : Part α}
    (h : ReadFrom graph entry p) : HoldsEntry entry p where
  label := h.label
  notes := by
    rw [h.notes]
    refine List.forall₂_map_right_iff.mpr (List.forall₂_same.mpr fun fields _ => ⟨rfl, ?_⟩)
    exact sifted_readable Modulation.read "modulations" fields

theorem HoldsEntry.playThrough {entry : String × Json α} {p : Part α} (h : HoldsEntry entry p)
    (id : String) : HoldsEntry entry (p.playThrough id) where
  label := (label_playThrough id p).trans h.label
  notes := by
    rw [noteList_playThrough]
    exact h.notes

theorem holdsEntries_headerOf {shape : String} {j : Json α} {parts : List (Part α)}
    (h : List.Forall₂ HoldsEntry (partEntries shape j) parts) :
    HoldsEntries shape j { headerOf (fieldsOf j) with parts := some parts } := by
  have hsifted {β : Type} (read : Json α → Except DecodeError β) (key : String) :
      Sifted read (listAt key j) (readable read (Json.lookup key (fieldsOf j))) := by
    rw [← listAt_fieldsOf]
    exact sifted_readable read key (fieldsOf j)
  exact
    { parts := ⟨parts, rfl, h⟩
      tempoMap := hsifted _ _
      meterMap := hsifted _ _
      keyMap := hsifted _ _
      graph := ⟨_, hsifted _ _, .inl rfl⟩
      automation := hsifted _ _
      remarks := hsifted _ _ }

theorem HoldsEntries.assignSynths {shape : String} {j : Json α} {s : Score α}
    (h : HoldsEntries shape j s) : HoldsEntries shape j s.assignSynths := by
  have hparts : ∃ parts, s.assignSynths.parts = some parts ∧
      List.Forall₂ HoldsEntry (partEntries shape j) parts := by
    obtain ⟨parts, hs, hentries⟩ := h.parts
    rcases s.parts_assignSynths with hsame | ⟨id, hgiven⟩
    · exact ⟨parts, hsame.trans hs, hentries⟩
    · refine ⟨parts.map (Part.playThrough id), by rw [hgiven, hs, Option.map_some], ?_⟩
      exact List.forall₂_map_right_iff.mpr (hentries.imp fun _ _ he => he.playThrough id)
  have hgraph : ∃ nodes, Sifted GraphNode.read (listAt "audioGraph" j) nodes ∧
      (s.assignSynths.graph = nodes ∨ nodes = [] ∧ s.assignSynths.graph = [defaultSynth]) := by
    obtain ⟨nodes, hnodes, hs⟩ := h.graph
    refine ⟨nodes, hnodes, ?_⟩
    rcases s.graph_assignSynths with hsame | ⟨hempty, hdefault⟩
    · rwa [hsame]
    · rcases hs with hs | ⟨hnil, -⟩
      · exact .inr ⟨hs.symm.trans hempty, hdefault⟩
      · exact .inr ⟨hnil, hdefault⟩
  rw [s.assignSynths_eq]
  exact { h with parts := hparts, graph := hgraph }

/-- Every part, every note and every readable entry of an input outside the score format is in its
normal form, in the order of the input, and nothing else but the instrument of a graph that had no
nodes. -/
theorem holdsEntries_normalize {shape : String} {j : Json α} (h : TakenBy shape j)
    (hshape : shape ∈ ["tracks", "sequences", "note-array"]) :
    HoldsEntries shape j (normalize j) := by
  obtain ⟨parts, hparts, heq⟩ := normalize_of_takenBy h hshape
  have hheader := holdsEntries_headerOf (hparts.imp fun _ _ hp => hp.holdsEntry)
  rw [heq]
  split
  · exact hheader
  · exact hheader.assignSynths

/-- Two tracks, one of them with its notes in an object, among entries that cannot be read. -/
theorem holdsEntries_normalize_tracks :
    let change : Json Float := .obj [("time", .int 1), ("bpm", .int 90)]
    let touch : Json Float := .obj [("type", .str "cc"), ("value", .int 64)]
    let lead : Json Float := .arr [.obj [("pitch", .int 60), ("modulations", .arr [.null, touch])],
      .int 5, .obj []]
    let bass : Json Float := .obj [("notes", .null), ("events", .arr [.obj [("note", .str "C2")]])]
    let song : Json Float := .obj [("tempoMap", .arr [.int 3, change]),
      ("tracks", .obj [("lead", lead), ("bass", bass)])]
    TakenBy "tracks" song ∧ HoldsEntries "tracks" song (normalize song) ∧
      (normalize song).tempoMap.length = 1 ∧
      (noteLists (normalize song)).map (List.map fun n => n.modulations.length) =
        [[1, 0], [0]] := by
  intro change touch lead bass song
  have htaken : TakenBy "tracks" song := by decide +kernel
  exact ⟨htaken, holdsEntries_normalize htaken (by simp), by decide +kernel, by decide +kernel⟩

end Partitura
