import Partitura.Proofs.Json.WellFormed
import Partitura.Score.Document

/-!
# Settling pitches

Settling only rewrites the list of parts. The keys of a document stay as they are,
and so does every other field; what a parser gave is still such a value.
-/

namespace Partitura

open Json

variable {α : Type}

/-! Rewriting the list at a key. -/

theorem mapListAt_eq_self {key : String} {f : Json α → Json α} {fields : List (String × Json α)}
    (h : ∀ items, lookup key fields = some (.arr items) → items.map f = items) :
    mapListAt key f (.obj fields) = .obj fields := by
  unfold mapListAt
  dsimp only
  split
  · rename_i items hl
    rw [h items hl, put_eq_self hl]
  · rfl

theorem lookup_mapListAt {key other : String} (hne : other ≠ key) (f : Json α → Json α)
    {fields settled : List (String × Json α)} (h : mapListAt key f (.obj fields) = .obj settled) :
    Json.lookup other settled = Json.lookup other fields := by
  unfold mapListAt at h
  dsimp only at h
  split at h
  · cases h
    exact lookup_put_of_ne hne _ fields
  · cases h
    rfl

variable [Scalar α]

theorem settlePitches_obj (fields : List (String × Json α)) : ∃ settled,
    settlePitches (.obj fields) = .obj settled ∧ settled.map Prod.fst = fields.map Prod.fst := by
  unfold settlePitches mapListAt
  dsimp only
  split
  · rename_i items h
    refine ⟨_, rfl, ?_⟩
    rw [keys_put, if_pos (List.mem_map.mpr ⟨_, mem_of_lookup h, rfl⟩)]
  · exact ⟨fields, rfl, rfl⟩

theorem wellFormed_mapListAt {key : String} {f : Json α → Json α}
    (hf : ∀ i : Json α, i.WellFormed → (f i).WellFormed) {j : Json α} (hj : j.WellFormed) :
    (mapListAt key f j).WellFormed := by
  unfold mapListAt
  split
  · split
    · rename_i items h
      refine hj.put (.arr fun i hi => ?_)
      obtain ⟨k, hk, rfl⟩ := List.mem_map.mp hi
      exact hf k ((hj.lookup h).items k hk)
    · exact hj
  · exact hj

/-! Values of a parser. -/

variable [LawfulScalar α]

theorem wellFormed_splitPitch {j : Json α} {n : Int} {cents : α}
    (h : splitPitch j = some (n, cents)) : (Json.int n : Json α).WellFormed := by
  unfold splitPitch at h
  split at h
  · cases h
    obtain ⟨hlo, hhi⟩ := Scalar.integer_mem (Scalar.round _ : α)
    exact .int hlo (by omega)
  · cases h

theorem wellFormed_roundPitch {j : Json α} (hj : j.WellFormed) : (roundPitch j).WellFormed := by
  unfold roundPitch
  split
  · rename_i h
    exact wellFormed_splitPitch h
  · exact hj

theorem wellFormed_settlePitch {fields : List (String × Json α)}
    (hf : (Json.obj fields).WellFormed) : (Json.obj (settlePitch fields)).WellFormed := by
  unfold settlePitch
  split
  · rename_i pitches h
    refine hf.put (.arr fun i hi => ?_)
    obtain ⟨k, hk, rfl⟩ := List.mem_map.mp hi
    exact wellFormed_roundPitch ((hf.lookup h).items k hk)
  · split
    · rename_i h
      dsimp only
      split
      · exact hf.put (wellFormed_splitPitch h)
      · exact (hf.put (wellFormed_splitPitch h)).put (.ofScalar _)
    · exact hf
  · exact hf

theorem wellFormed_settleNote {j : Json α} (hj : j.WellFormed) : (settleNote j).WellFormed := by
  unfold settleNote
  split
  · exact wellFormed_settlePitch hj
  · exact hj

theorem wellFormed_settlePitches {j : Json α} (hj : j.WellFormed) :
    (settlePitches j).WellFormed :=
  wellFormed_mapListAt (fun _ => wellFormed_mapListAt fun _ => wellFormed_settleNote) hj

end Partitura
