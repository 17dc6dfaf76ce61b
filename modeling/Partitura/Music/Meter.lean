import Partitura.Number.Numeral
import Partitura.Text.Blank

/-!
# Meters

A meter counts the beats of a bar and names the note value of one beat, which is
a power of two. Bars are measured in quarter notes: a 6/8 bar is three of them.
-/

namespace Partitura

structure Meter where
  numerator : Nat
  denominator : Nat
deriving DecidableEq, Repr

namespace Meter

def common : Meter := ⟨4, 4⟩

instance : Inhabited Meter := ⟨common⟩

def isNoteValue (n : Nat) : Bool := n != 0 && Nat.pow 2 n.log2 == n

/-- Reads `3/4`, or `C` for 4/4 and `C|` for 2/2. -/
def parse? (text : String) : Option Meter :=
  let s := Text.trim text
  if s = "C" then some ⟨4, 4⟩
  else if s = "C|" then some ⟨2, 2⟩
  else do
    let (above, below) ← Text.splitFirst '/' s
    let numerator ← Number.byte? (Text.trim above)
    let denominator ← Number.byte? (Text.trim below)
    if numerator ≠ 0 ∧ isNoteValue denominator then some ⟨numerator, denominator⟩ else none

def quarters {α : Type} [Scalar α] (m : Meter) : α :=
  Scalar.ofInt m.numerator * 4 / Scalar.ofInt m.denominator

/-- The denominator as a power of two: the number of factors two in it. -/
def denominatorLog (m : Meter) : Nat :=
  if m.denominator = 0 then 8
  else ((List.range 8).find? fun k => m.denominator % Nat.pow 2 (k + 1) != 0).getD 8

def text (m : Meter) : String := toString m.numerator ++ "/" ++ toString m.denominator

end Meter

end Partitura
