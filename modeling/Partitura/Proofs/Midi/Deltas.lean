import Partitura.Midi.Track
import Partitura.Proofs.Midi.Quantity
import Partitura.Proofs.StableSort

/-!
# Delta times

The format gives a quantity of variable length four bytes at most, which is 28 bits. Ticks have
32, and a delta time is as long as it needs to be. So a track keeps to the format just if no event
comes too long after the one before it, and after the beginning of the track.
-/

namespace Partitura.Midi

/-! ## Times between events -/

/-- The ticks that go by before each event and before the end, that comes with the last one. -/
def gaps (last : Nat) : List Nat → List Nat
  | [] => [0]
  | tick :: rest => (tick - last) :: gaps tick rest

theorem length_gaps (last : Nat) (ticks : List Nat) :
    (gaps last ticks).length = ticks.length + 1 := by
  induction ticks generalizing last with
  | nil => rfl
  | cons tick rest ih => exact congrArg (· + 1) (ih tick)

/-- No gap is as wide as a bound just if every tick comes soon after the beginning, or after
another one that it does not coincide with. -/
theorem forall_gaps_lt_iff {bound last : Nat} (hbound : 0 < bound) {ticks : List Nat}
    (h : (last :: ticks).Pairwise (· ≤ ·)) :
    (∀ gap ∈ gaps last ticks, gap < bound) ↔
      ∀ tick ∈ ticks, tick < last + bound ∨ ∃ s ∈ ticks, s < tick ∧ tick < s + bound := by
  induction ticks generalizing last with
  | nil => simp [gaps, hbound]
  | cons t rest ih =>
    obtain ⟨hlast, hrest⟩ := List.pairwise_cons.mp h
    have hfirst := hlast t (List.mem_cons_self ..)
    have hleast : ∀ u ∈ rest, t ≤ u := (List.pairwise_cons.mp hrest).1
    rw [gaps, List.forall_mem_cons, ih hrest, List.forall_mem_cons]
    constructor
    · rintro ⟨hgap, hall⟩
      have hsoon : t < last + bound := by omega
      refine ⟨.inl hsoon, fun u hu => ?_⟩
      rcases hall u hu with hnear | ⟨s, hs, hnear⟩
      · rcases (hleast u hu).eq_or_lt with rfl | htu
        · exact .inl hsoon
        · exact .inr ⟨t, List.mem_cons_self .., htu, hnear⟩
      · exact .inr ⟨s, List.mem_cons_of_mem _ hs, hnear⟩
    · rintro ⟨hsoon, hall⟩
      have hnone : ¬∃ s ∈ t :: rest, s < t ∧ t < s + bound := by
        rintro ⟨s, hs, hlt, -⟩
        rcases List.mem_cons.mp hs with rfl | hs
        · exact Nat.lt_irrefl _ hlt
        · exact absurd (hleast s hs) (Nat.not_le_of_lt hlt)
      have hgap := hsoon.resolve_right hnone
      refine ⟨by omega, fun u hu => ?_⟩
      rcases hall u hu with hnear | ⟨s, hs, hlt, hnear⟩
      · exact .inl (by omega)
      · rcases List.mem_cons.mp hs with rfl | hs
        · exact .inl hnear
        · exact .inr ⟨s, hs, hlt, hnear⟩

/-! ## Tracks -/

def deltaTimes (events : List (Nat × Bytes)) : List Nat := gaps 0 ((inOrder events).map Prod.fst)

def contents (events : List (Nat × Bytes)) : List Bytes :=
  (inOrder events).map Prod.snd ++ [markBytes Mark.trackEnd.code []]

def afterDelta (delta : Nat) (content : Bytes) : Bytes := quantity delta ++ content

theorem deltas_eq_flatten (last : Nat) (events : List (Nat × Bytes)) (content : Bytes) :
    deltas last events ++ quantity 0 ++ content =
      (List.zipWith afterDelta (gaps last (events.map Prod.fst))
        (events.map Prod.snd ++ [content])).flatten := by
  induction events generalizing last with
  | nil => simp [deltas, gaps, afterDelta]
  | cons e rest ih =>
    have hrest := ih e.1
    rw [List.append_assoc] at hrest
    simp only [deltas, List.map_cons, gaps, List.cons_append, List.zipWith_cons_cons,
      List.flatten_cons, ← hrest, afterDelta, List.append_assoc]

theorem length_deltaTimes (events : List (Nat × Bytes)) :
    (deltaTimes events).length = (contents events).length := by
  simp [deltaTimes, contents, length_gaps]

theorem payload_eq_flatten (events : List (Nat × Bytes)) :
    payload events =
      (List.zipWith afterDelta (deltaTimes events) (contents events)).flatten :=
  deltas_eq_flatten 0 (inOrder events) _

theorem forall_deltaTimes_lt_iff {bound : Nat} (hbound : 0 < bound) (events : List (Nat × Bytes)) :
    (∀ delta ∈ deltaTimes events, delta < bound) ↔
      ∀ e ∈ events, e.1 < bound ∨ ∃ s ∈ events, s.1 < e.1 ∧ e.1 < s.1 + bound := by
  have hmem {e : Nat × Bytes} : e ∈ inOrder events ↔ e ∈ events :=
    (List.mergeSort_perm events _).mem_iff
  have hsorted : (0 :: (inOrder events).map Prod.fst).Pairwise (· ≤ ·) :=
    List.pairwise_cons.mpr ⟨fun _ _ => Nat.zero_le _,
      List.pairwise_map.mpr (pairwise_mergeSort_le Prod.fst events)⟩
  rw [deltaTimes, forall_gaps_lt_iff hbound hsorted, List.forall_mem_map]
  simp only [List.mem_map, exists_exists_and_eq_and, hmem, Nat.zero_add]

/-- The delta times of a track keep to the format just if every event comes less than 2 ^ 28 ticks
after the beginning, or after an event that lies before it. -/
theorem payload_keepsToFormat_iff (events : List (Nat × Bytes)) :
    payload events = (List.zipWith afterDelta (deltaTimes events) (contents events)).flatten ∧
      (deltaTimes events).length = (contents events).length ∧
      ((∀ delta ∈ deltaTimes events, (quantity delta).length ≤ 4) ↔
        ∀ e ∈ events, e.1 < 2 ^ 28 ∨ ∃ s ∈ events, s.1 < e.1 ∧ e.1 < s.1 + 2 ^ 28) := by
  refine ⟨payload_eq_flatten events, length_deltaTimes events, ?_⟩
  rw [← forall_deltaTimes_lt_iff (by decide) events]
  exact forall₂_congr fun delta _ => length_quantity_le_iff

/-- A note that begins after 2 ^ 28 ticks has a delta time of five bytes. -/
theorem fiveBytes_deltaTimes_note :
    let events := [(268435456, (Message.noteOn 60 100).bytes 0)]
    deltaTimes events = [268435456, 0] ∧ quantity 268435456 = [0x81, 0x80, 0x80, 0x80, 0x00] ∧
      payload events = [0x81, 0x80, 0x80, 0x80, 0x00, 0x90, 0x3C, 0x64, 0x00, 0xFF, 0x2F, 0x00] := by
  decide +kernel

end Partitura.Midi
