import Partitura.Proofs.Json.Numbers
import Partitura.Proofs.Score.Normal

/-!
# The notes that an input describes

Outside the score format, an input describes its parts as tracks, as a list or as one list of
notes, and a part its notes as a list or as an object that holds one. The notes of its normal form
are read from these entries, part by part and in their order; instruments that parts are given
leave the notes alone.
-/

namespace Partitura

open Json

variable {α : Type}

def noteEntries (part : Json α) : List (Fields α) :=
  let list := match part with
    | .obj fields => (firstOf fields ["notes", "events"]).getD .null
    | j => j
  (list.array?.getD []).filterMap Json.object?

def describedParts (j : Json α) : List (Json α) :=
  match (j.get? "tracks").bind Json.object? with
  | some tracks => tracks.map Prod.snd
  | none =>
    match ["sequences", "parts"].findSome? fun key => (j.get? key).bind Json.array? with
    | some items => items
    | none => if j.array?.any (List.all · fun item => item.object?.isSome) then [j] else []

/-! ## The numbers of entries -/

section Reals

variable {P : α → Prop}

theorem reals_firstOf {fields : Fields α} (h : Reals P (.obj fields))
    {keys : List String} {j : Json α} (hj : firstOf fields keys = some j) : Reals P j := by
  obtain ⟨key, -, hj⟩ := List.exists_of_findSome?_eq_some hj
  exact h.lookup (Option.filter_eq_some_iff.mp hj).1

theorem reals_describedParts {j : Json α} (h : Reals P j) :
    ∀ part ∈ describedParts j, Reals P part := by
  unfold describedParts
  split
  · next tracks htracks =>
    obtain ⟨i, hi, htracks⟩ := Option.bind_eq_some_iff.mp htracks
    intro part hpart
    obtain ⟨track, htrack, rfl⟩ := List.mem_map.mp hpart
    exact ((h.get? hi).object? htracks).fields track htrack
  · split
    · next items hitems =>
      obtain ⟨key, -, hitems⟩ := List.exists_of_findSome?_eq_some hitems
      obtain ⟨i, hi, hitems⟩ := Option.bind_eq_some_iff.mp hitems
      exact (h.get? hi).array? hitems
    · split
      · exact List.forall_mem_singleton.mpr h
      · exact nofun

theorem reals_noteEntries {part : Json α} (h : Reals P part) :
    ∀ fields ∈ noteEntries part, Reals P (.obj fields) := by
  have hlist {list : Json α} (hl : Reals P list) :
      ∀ fields ∈ (list.array?.getD []).filterMap Json.object?, Reals P (.obj fields) := by
    intro fields hfields
    obtain ⟨item, hitem, hobject⟩ := List.mem_filterMap.mp hfields
    obtain ⟨items, harray, hitem⟩ := mem_getD_nil hitem
    exact (hl.array? harray item hitem).object? hobject
  unfold noteEntries
  split
  · next fields =>
    cases hfirst : firstOf fields ["notes", "events"] with
    | none => exact hlist .null
    | some list => exact hlist (reals_firstOf h hfirst)
  · exact hlist h

end Reals

/-! ## The notes of the normal form -/

theorem noteList_playThrough (id : String) (p : Part α) :
    (p.playThrough id).noteList = p.noteList := by
  unfold Part.playThrough
  split
  · rfl
  · rfl

theorem noteLists_playThrough (id : String) (parts : Option (List (Part α))) :
    ((parts.map (List.map (Part.playThrough id))).getD []).map Part.noteList =
      (parts.getD []).map Part.noteList := by
  cases parts with
  | none => rfl
  | some parts =>
    rw [Option.map_some, Option.getD_some, Option.getD_some, List.map_map]
    exact List.map_congr_left fun p _ => noteList_playThrough id p

def noteLists (s : Score α) : List (List (Note α)) := s.partList.map Part.noteList

theorem noteLists_assignSynths (s : Score α) : noteLists s.assignSynths = noteLists s := by
  unfold Score.assignSynths
  split
  · rfl
  · dsimp only
    split
    · exact noteLists_playThrough _ _
    · split
      · exact noteLists_playThrough _ _
      · rfl

variable [Scalar α]

theorem notesOf_eq (j : Json α) :
    notesOf j = ((j.array?.getD []).filterMap Json.object?).map noteOf := by
  rw [notesOf, List.map_filterMap]

theorem noteList_partOf (graph : List (GraphNode α)) (label : String) (fields : Fields α) :
    (partOf graph label fields).noteList = (noteEntries (.obj fields)).map noteOf := by
  show ((firstOf fields ["notes", "events"]).map notesOf).getD [] = _
  unfold noteEntries
  dsimp only
  rw [← notesOf_eq]
  cases firstOf fields ["notes", "events"] with
  | none => rfl
  | some j => rfl

theorem noteEntries_of_not_obj {j : Json α} (h : ∀ fields, j = .obj fields → False) :
    (noteEntries j).map noteOf = notesOf j := by
  unfold noteEntries
  split
  · next fields => exact (h fields rfl).elim
  · exact (notesOf_eq j).symm

theorem noteList_trackOf (graph : List (GraphNode α)) (track : String × Json α) :
    (trackOf graph track).noteList = (noteEntries track.2).map noteOf := by
  unfold trackOf
  split
  · exact noteList_partOf _ _ _
  · next hother => exact (noteEntries_of_not_obj hother).symm

theorem noteList_listedPart (graph : List (GraphNode α)) (item : Json α × Nat) :
    (listedPart graph item).noteList = (noteEntries item.1).map noteOf := by
  unfold listedPart
  dsimp only
  split
  · next heq =>
    rw [heq]
    exact noteList_partOf _ _ _
  · next hother =>
    rw [noteEntries_of_not_obj hother, Part.noteList, Part.labelled, notesOf_eq]
    cases item.1.array? with
    | none => rfl
    | some items => rfl

def describedNotes (part : Json α) : List (Note α) := (noteEntries part).map noteOf

theorem noteLists_trackShape (j : Json α) : (trackShape.read? j).map noteLists =
    ((j.get? "tracks").bind Json.object?).map fun tracks =>
      tracks.map fun track => describedNotes track.2 := by
  cases j with
  | obj fields =>
    show (Option.bind ((Json.lookup "tracks" fields).bind Json.object?) _).map noteLists =
      ((Json.lookup "tracks" fields).bind Json.object?).map _
    cases (Json.lookup "tracks" fields).bind Json.object? with
    | none => rfl
    | some tracks =>
      refine congrArg some ((noteLists_assignSynths _).trans ?_)
      show (tracks.map (trackOf _)).map Part.noteList = _
      rw [List.map_map]
      exact List.map_congr_left fun track _ => noteList_trackOf _ track
  | _ => rfl

theorem noteLists_partShape (j : Json α) : (partShape.read? j).map noteLists =
    (["sequences", "parts"].findSome? fun key => (j.get? key).bind Json.array?).map fun items =>
      items.map describedNotes := by
  cases j with
  | obj fields =>
    show (Option.bind (["sequences", "parts"].findSome? fun key =>
        (Json.lookup key fields).bind Json.array?) _).map noteLists =
      (["sequences", "parts"].findSome? fun key =>
        (Json.lookup key fields).bind Json.array?).map _
    cases ["sequences", "parts"].findSome? fun key =>
        (Json.lookup key fields).bind Json.array? with
    | none => rfl
    | some items =>
      refine congrArg some ?_
      show (items.zipIdx.map (listedPart _)).map Part.noteList = _
      have hitems : items.map describedNotes =
          items.zipIdx.map fun item => describedNotes item.1 := by
        conv_lhs => rw [← List.zipIdx_map_fst 0 items, List.map_map]
        rfl
      rw [List.map_map]
      refine Eq.trans ?_ hitems.symm
      exact List.map_congr_left fun item _ => noteList_listedPart _ item
  | _ => rfl

theorem noteLists_noteListShape (j : Json α) : (noteListShape.read? j).map noteLists =
    if j.array?.any (List.all · fun item => item.object?.isSome) then some [describedNotes j]
    else none := by
  cases j with
  | arr items =>
    show (Option.map noteLists (if (items.all fun item => item.object?.isSome) = true then _
      else none)) = if (items.all fun item => item.object?.isSome) = true then _ else none
    split
    · refine congrArg some ((noteLists_assignSynths _).trans ?_)
      exact congrArg (fun notes => [notes]) (notesOf_eq (.arr items))
    · rfl
  | _ => rfl

theorem normalize_of_not_document {j : Json α} (h : isDocument j = false) :
    normalize j = (((trackShape.read? j).or (partShape.read? j)).or
      (noteListShape.read? j)).getD Score.empty := by
  have hdocument : documentShape.read? j = none := by simp [documentShape, h]
  have hany : anyShape.read? j = some Score.empty := rfl
  simp only [normalize, shapes, List.findSome?_cons, hdocument, hany]
  cases trackShape.read? j with
  | some s => rfl
  | none =>
    cases partShape.read? j with
    | some s => rfl
    | none => cases noteListShape.read? j <;> rfl

theorem noteLists_normalize {j : Json α} (h : isDocument j = false) :
    noteLists (normalize j) = (describedParts j).map describedNotes := by
  have hempty : noteLists (Score.empty : Score α) = [] := rfl
  rw [normalize_of_not_document h, ← Option.getD_map noteLists, hempty, Option.map_or,
    Option.map_or, noteLists_trackShape, noteLists_partShape, noteLists_noteListShape]
  unfold describedParts
  cases (j.get? "tracks").bind Json.object? with
  | some tracks =>
    dsimp only
    rw [List.map_map]
    rfl
  | none =>
    cases ["sequences", "parts"].findSome? fun key => (j.get? key).bind Json.array? with
    | some items => rfl
    | none =>
      dsimp only
      split <;> rfl

end Partitura
