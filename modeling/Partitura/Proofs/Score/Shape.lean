import Mathlib.Data.List.Nodup
import Partitura.Score.Normal

/-!
# The shape that an input has

Every input has a shape, and a document in the score format has no other one.
-/

namespace Partitura

variable {α : Type}

theorem lookup_format_of_isDocument {j : Json α} (h : isDocument j = true) :
    ∃ fields, j = .obj fields ∧ Json.lookup "formatId" fields = some (.str formatName) := by
  cases j with
  | obj fields =>
    have h := eq_of_beq h
    obtain ⟨i, hi, hs⟩ := Option.bind_eq_some_iff.mp h
    cases i with
    | str s =>
      cases hs
      exact ⟨fields, rfl, hi⟩
    | null => cases hs
    | bool => cases hs
    | int => cases hs
    | real => cases hs
    | arr => cases hs
    | obj => cases hs
  | null => cases h
  | bool => cases h
  | int => cases h
  | real => cases h
  | str => cases h
  | arr => cases h

variable [Scalar α]

theorem exists_shape (j : Json α) : ∃ shape ∈ shapes, shape.read? j = some (normalize j) := by
  have hsome : (shapes.findSome? fun shape => shape.read? j).isSome := by
    rw [List.findSome?_isSome_iff]
    exact ⟨anyShape, by simp [shapes], rfl⟩
  obtain ⟨s, hs⟩ := Option.isSome_iff_exists.mp hsome
  obtain ⟨shape, hshape, hread⟩ := List.exists_of_findSome?_eq_some hs
  refine ⟨shape, hshape, ?_⟩
  rw [hread, normalize, hs]
  rfl

def TakenBy (name : String) (j : Json α) : Prop := (shapeNames j).head? = some name

instance (name : String) (j : Json α) : Decidable (TakenBy name j) :=
  inferInstanceAs (Decidable ((shapeNames j).head? = some name))

theorem nodup_names_shapes : ((shapes : List (Shape α)).map Shape.name).Nodup := by
  simp [shapes, documentShape, trackShape, partShape, noteListShape, anyShape]

theorem read?_of_takenBy {shape : Shape α} (hshape : shape ∈ shapes) {j : Json α}
    (h : TakenBy shape.name j) : shape.read? j = some (normalize j) := by
  rw [TakenBy, shapeNames, List.head?_map, List.head?_filter] at h
  obtain ⟨first, hfirst, hname⟩ := Option.map_eq_some_iff.mp h
  have hsame : first = shape := List.inj_on_of_nodup_map nodup_names_shapes
    (List.mem_of_find?_eq_some hfirst) hshape hname
  rw [hsame] at hfirst
  obtain ⟨hsome, before, after, hshapes, hbefore⟩ := List.find?_eq_some_iff_append.mp hfirst
  obtain ⟨s, hs⟩ := Option.isSome_iff_exists.mp hsome
  have hnone : before.findSome? (fun shape => shape.read? j) = none :=
    List.findSome?_eq_none_iff.mpr fun earlier he => by simpa using hbefore earlier he
  rw [normalize, hshapes, List.findSome?_append, hnone, List.findSome?_cons, hs]
  rfl

theorem normalize_of_isDocument {j : Json α} (h : isDocument j = true) :
    normalize j = readDocument j := by
  simp [normalize, shapes, documentShape, h]

end Partitura
