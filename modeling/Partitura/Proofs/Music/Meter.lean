import Mathlib.Algebra.Group.Nat.Defs
import Partitura.Performance.OfScore
import Partitura.Proofs.Outcome

/-!
# Meters that are read

Both numbers of a meter that is read fit into a byte, the upper one is not zero and the lower one
is a power of two. A performance has no other meters than these.
-/

namespace Partitura

/-- A meter whose beats can be counted, each of them a note value down to the 128th. -/
structure Meter.Written (m : Meter) : Prop where
  positive : m.numerator ≠ 0
  small : m.numerator ≤ 255
  value : ∃ k < 8, m.denominator = 2 ^ k

theorem written_common : Meter.common.Written := ⟨by decide, by decide, 2, by decide, rfl⟩

theorem byte?_le {s : String} {n : Nat} (h : Number.byte? s = some n) : n ≤ 255 := by
  obtain ⟨k, hk, rfl⟩ := Option.map_eq_some_iff.mp h
  simp only [Number.integerWithin?] at hk
  split at hk
  · cases hk
  · obtain ⟨digits, -, hk⟩ := Option.bind_eq_some_iff.mp hk
    obtain ⟨hbounds, hvalue⟩ := Option.ite_none_right_eq_some.mp hk
    obtain rfl := Option.some.inj hvalue
    omega

theorem exists_pow_of_isNoteValue {n : Nat} (h : Meter.isNoteValue n = true) (hn : n ≤ 255) :
    ∃ k < 8, n = 2 ^ k := by
  obtain ⟨hzero, hpow⟩ := Bool.and_eq_true_iff.mp h
  have hzero : n ≠ 0 := bne_iff_ne.mp hzero
  exact ⟨n.log2, (Nat.log2_lt hzero).mpr (by omega), (beq_iff_eq.mp hpow).symm⟩

theorem written_of_parse? {s : String} {m : Meter} (h : Meter.parse? s = some m) : m.Written := by
  simp only [Meter.parse?] at h
  split at h
  · cases h
    exact written_common
  · split at h
    · cases h
      exact ⟨by decide, by decide, 1, by decide, rfl⟩
    · obtain ⟨⟨above, below⟩, -, h⟩ := Option.bind_eq_some_iff.mp h
      obtain ⟨numerator, habove, h⟩ := Option.bind_eq_some_iff.mp h
      obtain ⟨denominator, hbelow, h⟩ := Option.bind_eq_some_iff.mp h
      split at h
      · next hvalid =>
        cases h
        exact ⟨hvalid.1, byte?_le habove, exists_pow_of_isNoteValue hvalid.2 (byte?_le hbelow)⟩
      · cases h

theorem two_pow_denominatorLog {m : Meter} (h : m.Written) :
    2 ^ m.denominatorLog = m.denominator ∧ m.denominatorLog < 8 := by
  obtain ⟨numerator, denominator⟩ := m
  obtain ⟨k, hk, rfl : denominator = 2 ^ k⟩ := h.value
  have hall : ∀ k : Fin 8, Meter.denominatorLog ⟨0, 2 ^ k.1⟩ = k := by decide +kernel
  have hlog : Meter.denominatorLog ⟨numerator, 2 ^ k⟩ = k := hall ⟨k, hk⟩
  rw [hlog]
  exact ⟨rfl, hk⟩

section Performed

variable {α : Type} [Scalar α]

def Performance.MetersWritten (p : Performance α) : Prop :=
  p.meter.Written ∧ ∀ c ∈ p.meterChanges, c.value.Written

theorem metersWritten_perform (s : Score α) : (perform s).MetersWritten := by
  constructor
  · show (baseMeter s.meter).value.Written
    unfold baseMeter
    split
    · exact written_common
    · split
      · exact written_of_parse? ‹_›
      · exact written_common
  · intro c hc
    obtain ⟨point, i, hchange⟩ := Outcome.mem_collectSome (List.mem_mergeSort.mp hc)
    dsimp only [meterChange] at hchange
    split at hchange
    · next m hparse =>
      cases hchange
      exact written_of_parse? hparse
    · cases hchange

end Performed

end Partitura
