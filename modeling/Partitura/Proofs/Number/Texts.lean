import Partitura.Number.Binary64
import Partitura.Number.Rational
import Partitura.Proofs.Text.Lines

/-!
# Texts of numbers

A number is written without blanks, so that a text with numbers in it is as flat as the rest
of it is.
-/

namespace Partitura

class FlatNumbers (α : Type) [Scalar α] : Prop where
  flat_fixedText (places : Nat) (x : α) : Text.Flat (Scalar.fixedText places x)

namespace Number

open Text

theorem flat_of_subset {s : String} (hs : Flat s) {cs : List Char} (h : cs ⊆ s.toList) :
    Flat (String.ofList cs) := by
  intro c hc
  rw [String.toList_ofList] at hc
  exact hs c (h hc)

theorem flat_zeros (n : Nat) : Flat (zeros n) := by
  refine flat_of_digits fun c hc => ?_
  rw [zeros, String.toList_ofList] at hc
  rw [(List.mem_replicate.mp hc).2]
  rfl

theorem flat_writeFixed (places scaled : Nat) : Flat (writeFixed places scaled) := by
  have hpadded : Flat (zeros (places + 1 - (toString scaled).length) ++ toString scaled) :=
    (flat_zeros _).append (flat_toString scaled)
  unfold writeFixed
  dsimp only
  split
  · exact flat_of_subset hpadded (List.take_subset _ _)
  · exact ((flat_of_subset hpadded (List.take_subset _ _)).append (by decide)).append
      (flat_of_subset hpadded (List.drop_subset _ _))

theorem flat_sign (negative : Prop) [Decidable negative] : Flat (if negative then "-" else "") := by
  split <;> decide

instance : FlatNumbers Rat where
  flat_fixedText places _ := (flat_sign _).append (flat_writeFixed places _)

instance : FlatNumbers Float where
  flat_fixedText places x := by
    show Flat (fixedText places x)
    unfold fixedText
    dsimp only
    split
    · decide
    · split
      · exact (flat_sign _).append (by decide)
      · exact (flat_sign _).append (flat_writeFixed places _)

end Number

end Partitura
