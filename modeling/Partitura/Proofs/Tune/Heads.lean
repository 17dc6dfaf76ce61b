import Partitura.Proofs.Text.Pieces
import Partitura.Tune.Basic

/-!
# Written pitches

The text of a head begins with its mark, then comes one letter, and then as many apostrophes or
commas as its octave needs. Small letters tell the octaves from 5 on from the others. So two heads
are written in the same way just if they have the same mark and the same letter, and the same
octave or none but 3 and 4, which need no sign behind the letter.
-/

namespace Partitura

/-! ## Marks -/

def markText (a : Option Accidental) : String := (a.map Accidental.mark).getD ""

theorem markText_injective : Function.Injective markText := by
  rintro (_ | a) (_ | b) h
  · rfl
  · revert h
    cases b <;> decide
  · revert h
    cases a <;> decide
  · revert h
    cases a <;> cases b <;> decide

def isMark (c : Char) : Bool := c ∈ ['^', '=', '_']

theorem isMark_markText (a : Option Accidental) : ∀ c ∈ (markText a).toList, isMark c = true := by
  refine List.all_eq_true.mp ?_
  rcases a with _ | _ | _ | _ | _ | _ <;> decide

/-! ## Letters and octaves -/

theorem Letter.upper_injective : Function.Injective Letter.upper := by
  intro l l' h
  revert h
  cases l <;> cases l' <;> decide

theorem Letter.lower_injective : Function.Injective fun l : Letter => l.upper.toLower := by
  intro l l' h
  revert h
  cases l <;> cases l' <;> decide

theorem Letter.lower_ne_upper (l l' : Letter) : l.upper.toLower ≠ l'.upper := by
  cases l <;> cases l' <;> decide

theorem toList_octaveText_of_le (l : Letter) {octave : Int} (h : 5 ≤ octave) :
    (octaveText l octave).toList =
      l.upper.toLower :: List.replicate (octave - 4).toNat '\'' := by
  simp [octaveText, h]

theorem toList_octaveText_of_lt (l : Letter) {octave : Int} (h : octave < 5) :
    (octaveText l octave).toList = l.upper :: List.replicate (3 - octave).toNat ',' := by
  simp [octaveText, not_le.mpr h]

def IsUnsigned (octave : Int) : Prop := octave = 3 ∨ octave = 4

theorem octaveText_congr (l : Letter) {octave octave' : Int} (h : IsUnsigned octave)
    (h' : IsUnsigned octave') : octaveText l octave = octaveText l octave' := by
  obtain rfl | rfl := h <;> obtain rfl | rfl := h' <;> rfl

theorem octaveText_eq_iff {l l' : Letter} {octave octave' : Int} :
    octaveText l octave = octaveText l' octave' ↔
      l = l' ∧ (octave = octave' ∨ IsUnsigned octave ∧ IsUnsigned octave') := by
  constructor
  · intro h
    have hchars := congrArg String.toList h
    rcases le_or_gt 5 octave with ho | ho <;> rcases le_or_gt 5 octave' with ho' | ho'
    · rw [toList_octaveText_of_le l ho, toList_octaveText_of_le l' ho', List.cons.injEq] at hchars
      have hcount := (List.replicate_inj.mp hchars.2).1
      exact ⟨Letter.lower_injective hchars.1, .inl (by omega)⟩
    · rw [toList_octaveText_of_le l ho, toList_octaveText_of_lt l' ho', List.cons.injEq] at hchars
      exact absurd hchars.1 (Letter.lower_ne_upper l l')
    · rw [toList_octaveText_of_lt l ho, toList_octaveText_of_le l' ho', List.cons.injEq] at hchars
      exact absurd hchars.1.symm (Letter.lower_ne_upper l' l)
    · rw [toList_octaveText_of_lt l ho, toList_octaveText_of_lt l' ho', List.cons.injEq] at hchars
      have hcount := (List.replicate_inj.mp hchars.2).1
      refine ⟨Letter.upper_injective hchars.1, ?_⟩
      unfold IsUnsigned
      omega
  · rintro ⟨rfl, rfl | ⟨ho, ho'⟩⟩
    · rfl
    · exact octaveText_congr l ho ho'

theorem isMark_head?_octaveText (l : Letter) (octave : Int) :
    ∀ c ∈ (octaveText l octave).toList.head?, isMark c = false := by
  rcases le_or_gt 5 octave with h | h
  · rw [toList_octaveText_of_le l h]
    rintro c ⟨⟩
    cases l <;> rfl
  · rw [toList_octaveText_of_lt l h]
    rintro c ⟨⟩
    cases l <;> rfl

/-! ## Heads -/

theorem Head.toList_text (h : Head) :
    h.text.toList = (markText h.accidental).toList ++ (octaveText h.letter h.octave).toList :=
  String.toList_append ..

/-- Heads are written in the same way just if they differ at most in their octaves, and in these
only as 3 and 4. -/
theorem Head.text_eq_iff (h h' : Head) : h.text = h'.text ↔
    h.accidental = h'.accidental ∧ h.letter = h'.letter ∧
      (h.octave = h'.octave ∨ IsUnsigned h.octave ∧ IsUnsigned h'.octave) := by
  constructor
  · intro heq
    obtain ⟨hmark, hletter⟩ := takeWhile_append_stop _ (isMark_markText h.accidental)
      (isMark_head?_octaveText h.letter h.octave)
    obtain ⟨hmark', hletter'⟩ := takeWhile_append_stop _ (isMark_markText h'.accidental)
      (isMark_head?_octaveText h'.letter h'.octave)
    rw [← h.toList_text, heq, h'.toList_text] at hmark hletter
    exact ⟨markText_injective (String.toList_inj.mp (hmark.symm.trans hmark')),
      octaveText_eq_iff.mp (String.toList_inj.mp (hletter.symm.trans hletter'))⟩
  · rintro ⟨hmark, hletter⟩
    show markText h.accidental ++ octaveText h.letter h.octave =
      markText h'.accidental ++ octaveText h'.letter h'.octave
    rw [hmark, octaveText_eq_iff.mpr hletter]

/-- The C below middle C is written as middle C is. -/
theorem Head.shared_text :
    (⟨none, .c, 3⟩ : Head).text = (⟨none, .c, 4⟩ : Head).text ∧
      (⟨none, .c, 3⟩ : Head) ≠ ⟨none, .c, 4⟩ := by decide

end Partitura
