import Partitura.Music.Pitch
import Partitura.Proofs.Number.Digits
import Partitura.Proofs.Text.Lines

/-!
# Pitches and their names

The name of a spelled pitch is read as that pitch, whatever its octave; only a natural is not
written, so none is read. The number of a pitch that can be played is the number of its spelling.
-/

namespace Partitura

def startsOctave (c : Char) : Bool := c.isDigit || c == '-'

theorem isBlank_of_startsOctave {c : Char} (h : startsOctave c = true) : Text.isBlank c = false := by
  rcases (Bool.or_eq_true _ _).mp h with hdigit | hminus
  · exact Text.isBlank_of_isDigit hdigit
  · rw [eq_of_beq hminus]
    rfl

theorem startsOctave_of_mem_toString {n : Int} {c : Char} (h : c ∈ (toString n).toList) :
    startsOctave c = true := by
  rw [Number.toList_toString_int, List.mem_append] at h
  rcases h with h | h
  · split at h
    · rw [List.mem_singleton.mp h]
      rfl
    · cases h
  · rw [startsOctave, (Number.digits_toString _).2 c h, Bool.true_or]

theorem toString_int_ne_nil (n : Int) : (toString n).toList ≠ [] := by
  rw [Number.toList_toString_int]
  exact List.append_ne_nil_of_right_ne_nil _ (Number.digits_toString _).1

theorem playable?_eq_some_iff {n : Int} {m : Nat} :
    playable? n = some m ↔ n = m ∧ m ≤ 127 := by
  unfold playable?
  split
  · rw [Option.some.injEq]
    omega
  · simp only [reduceCtorEq, false_iff]
    omega

/-! ## Signs -/

namespace Accidental

def signs (a : Option Accidental) : List Char := ((a.map sign).getD "").toList

theorem mem_signs {a : Option Accidental} {c : Char} (h : c ∈ signs a) : c = '#' ∨ c = 'b' := by
  rcases a with _ | _ | _ | _ | _ | _ <;> simp_all [signs, sign]

theorem parse?_signs (a : Option Accidental) :
    (signs a).isEmpty = true ∧ a.filter (· ≠ natural) = none ∨
      (signs a).isEmpty = false ∧
        parse? (String.ofList (signs a)) = a.filter (· ≠ natural) ∧
        (a.filter (· ≠ natural)).isSome = true := by
  rcases a with _ | _ | _ | _ | _ | _ <;> decide

end Accidental

/-! ## Names -/

namespace SpelledPitch

theorem toList_text (p : SpelledPitch) :
    p.text.toList = p.letter.upper :: (Accidental.signs p.accidental ++ (toString p.octave).toList) := by
  simp [text, Accidental.signs]

theorem isBlank_text {p : SpelledPitch} : ∀ c ∈ p.text.toList, Text.isBlank c = false := by
  intro c hc
  rw [toList_text, List.mem_cons, List.mem_append] at hc
  rcases hc with rfl | hsign | hoctave
  · cases p.letter <;> rfl
  · rcases Accidental.mem_signs hsign with rfl | rfl <;> rfl
  · exact isBlank_of_startsOctave (startsOctave_of_mem_toString hoctave)

theorem parse?_text {p : SpelledPitch} (hlo : -2147483648 ≤ p.octave) (hhi : p.octave ≤ 2147483647) :
    parse? p.text = some { p with accidental := p.accidental.filter (· ≠ .natural) } := by
  have hmark : ∀ c ∈ Accidental.signs p.accidental, (!startsOctave c) = true := fun c hc => by
    rcases Accidental.mem_signs hc with rfl | rfl <;> rfl
  have hoctave : ∀ c ∈ (toString p.octave).toList.head?, (!startsOctave c) = false := fun c hc => by
    rw [startsOctave_of_mem_toString (List.mem_of_mem_head? hc)]
    rfl
  obtain ⟨htake, hdrop⟩ := takeWhile_append_stop _ hmark hoctave
  have hread : Number.int32? (toString p.octave) = some p.octave :=
    Number.integerWithin?_toString hlo hhi
  have hsome : (toString p.octave).toList.isEmpty = false :=
    List.isEmpty_eq_false_iff.mpr (toString_int_ne_nil p.octave)
  unfold startsOctave at htake hdrop
  unfold parse?
  rw [Text.trimChars_of_visible isBlank_text, toList_text]
  simp only [Letter.ofChar?_upper, htake, hdrop, hsome, String.ofList_toList, hread,
    Option.bind_eq_bind, Option.bind_some, Bool.false_eq_true, if_false]
  rcases Accidental.parse?_signs p.accidental with ⟨hempty, hnone⟩ | ⟨hempty, hparse, hmarked⟩
  · simp only [hempty, if_true, hnone]
  · obtain ⟨a, ha⟩ := Option.isSome_iff_exists.mp hmarked
    simp only [hempty, Bool.false_eq_true, if_false, hparse, ha, Option.map_some, Option.bind_some]

/-! ## Numbers -/

/-- Semitones above the C of octave -1, however far that is. -/
def semitones (p : SpelledPitch) : Int :=
  (p.octave + 1) * 12 + p.letter.semitone + (p.accidental.map Accidental.offset).getD 0

theorem number_eq_bmod (p : SpelledPitch) : p.number = p.semitones.bmod 4294967296 := by
  have hwords : (Int32.ofInt p.octave + 1) * 12 + Int32.ofInt p.letter.semitone
      + Int32.ofInt ((p.accidental.map Accidental.offset).getD 0) = Int32.ofInt p.semitones := by
    rw [semitones, Int32.ofInt_add, Int32.ofInt_add, Int32.ofInt_mul, Int32.ofInt_add]
    rfl
  rw [number, hwords, Int32.toInt_ofInt]

/-- A pitch has its own number if and only if the number fits into 32 bits. -/
theorem number_eq_semitones_iff (p : SpelledPitch) :
    p.number = p.semitones ↔ -2147483648 ≤ p.semitones ∧ p.semitones ≤ 2147483647 := by
  rw [number_eq_bmod, Int.bmod_eq_iff (by decide)]
  omega

theorem class_spellClass (n : Nat) : (spellClass n).1.semitone +
    ((spellClass n).2.map Accidental.offset).getD 0 = (n : Int) % 12 := by
  have hclass : ∀ k : Nat, k < 12 → (spellClass k).1.semitone +
      ((spellClass k).2.map Accidental.offset).getD 0 = (k : Int) := by decide
  have hmod : spellClass n = spellClass (n % 12 : Nat) := by
    have hrest : ((n : Int) % 12).toNat = (((n % 12 : Nat) : Int) % 12).toNat := by omega
    unfold spellClass
    rw [hrest]
  rw [hmod, hclass _ (Nat.mod_lt n (by decide))]
  rfl

theorem semitones_ofMidi (n : Nat) : (ofMidi n).semitones = n := by
  have hclass := class_spellClass n
  unfold ofMidi semitones
  dsimp only
  omega

theorem midi?_ofMidi {n : Nat} (h : n ≤ 127) : (ofMidi n).midi? = some n := by
  have hnumber : (ofMidi n).number = (ofMidi n).semitones := by
    rw [number_eq_semitones_iff, semitones_ofMidi]
    omega
  rw [midi?, hnumber, semitones_ofMidi, playable?_eq_some_iff]
  exact ⟨rfl, h⟩

end SpelledPitch

namespace PitchValue

theorem playable?_iff_spelled {n : Int} {m : Nat} : playable? n = some m ↔
    ∃ q, (playable? n).map SpelledPitch.ofMidi = some q ∧ q.midi? = some m := by
  constructor
  · intro h
    exact ⟨SpelledPitch.ofMidi m, by rw [h, Option.map_some],
      SpelledPitch.midi?_ofMidi (playable?_eq_some_iff.mp h).2⟩
  · rintro ⟨q, hq, hm⟩
    obtain ⟨k, hk, rfl⟩ := Option.map_eq_some_iff.mp hq
    rw [SpelledPitch.midi?_ofMidi (playable?_eq_some_iff.mp hk).2] at hm
    rw [hk, hm]

theorem midi?_iff_spell? (v : PitchValue) (n : Nat) :
    v.midi? = some n ↔ ∃ q, v.spell? = some q ∧ q.midi? = some n := by
  cases v with
  | midi k => exact playable?_iff_spelled
  | name s =>
    cases hnumeric : numeric? s with
    | some k =>
      simp only [midi?, spell?, hnumeric]
      exact playable?_iff_spelled
    | none =>
      simp only [midi?, spell?, hnumeric, Option.bind_eq_some_iff, Option.map_eq_some_iff]
      constructor
      · rintro ⟨q, hq, hn⟩
        exact ⟨q, ⟨q, hq, n, hn, rfl⟩, hn⟩
      · rintro ⟨q, ⟨r, hr, m, hm, rfl⟩, hn⟩
        exact ⟨r, hr, hn⟩

theorem midi?_le {v : PitchValue} {n : Nat} (h : v.midi? = some n) : n ≤ 127 := by
  obtain ⟨q, -, hq⟩ := (midi?_iff_spell? v n).mp h
  exact (playable?_eq_some_iff.mp hq).2

end PitchValue

/-- The name of a spelled pitch is read as that pitch, a natural as no accidental, and a pitch has a
number if and only if it has a spelling with that number. -/
theorem spellings_of_names_and_numbers :
    (∀ p : SpelledPitch, -2147483648 ≤ p.octave → p.octave ≤ 2147483647 →
      SpelledPitch.parse? p.text = some { p with accidental := p.accidental.filter (· ≠ .natural) }) ∧
    ∀ (v : PitchValue) (n : Nat),
      v.midi? = some n ↔ ∃ q, v.spell? = some q ∧ q.midi? = some n :=
  ⟨fun _ => SpelledPitch.parse?_text, PitchValue.midi?_iff_spell?⟩

/-- A natural at the highest octave is left out, and a text of a number is spelled with a sharp. -/
theorem spellings_of_names_and_numbers_extremes :
    SpelledPitch.parse? (SpelledPitch.text ⟨.b, some .doubleSharp, -2147483648⟩) =
        some ⟨.b, some .doubleSharp, -2147483648⟩ ∧
      SpelledPitch.parse? (SpelledPitch.text ⟨.e, some .natural, 2147483647⟩) =
        some ⟨.e, none, 2147483647⟩ ∧
      (PitchValue.name " 61").midi? = some 61 ∧
      ∃ q, (PitchValue.name " 61").spell? = some q ∧ q.midi? = some 61 := by
  have hnumber : (PitchValue.name " 61").midi? = some 61 := by decide +kernel
  exact ⟨spellings_of_names_and_numbers.1 _ (by decide) (by decide),
    spellings_of_names_and_numbers.1 _ (by decide) (by decide), hnumber,
    (spellings_of_names_and_numbers.2 _ _).mp hnumber⟩

end Partitura
