import Partitura.Performance.OfScore
import Partitura.Proofs.Number.Plain
import Partitura.Proofs.Score.Described
import Partitura.Proofs.Time.Written

/-!
# Times that an input counts in beats

Outside the score format, numbers are beats of four to the bar. A time becomes a text of bars and
beats, which is read in bars of the meter's length, so it moves with every full bar where these are
not four quarters long. A length becomes a note value: a few keep what they count, and any other
number names a part of a whole note, as the number of a note value does.
-/

namespace Partitura

open Json Number

/-! ## Bars and note values -/

/-- Where a time comes that was counted in bars of four quarters, in bars of another length. -/
def inBars (quarters t : Rat) : Rat := ⌊t / 4⌋ * quarters + (t - 4 * ⌊t / 4⌋)

theorem inBars_eq_iff {quarters t : Rat} (ht : 0 ≤ t) :
    inBars quarters t = t ↔ t < 4 ∨ quarters = 4 := by
  have hmoved : inBars quarters t = t ↔ (⌊t / 4⌋ : Rat) * (quarters - 4) = 0 := by
    unfold inBars
    constructor <;> intro h <;> linarith
  have hbar : (⌊t / 4⌋ : Rat) = 0 ↔ t < 4 := by
    rw [Int.cast_eq_zero, Int.floor_eq_zero_iff, Set.mem_Ico, div_lt_one (by norm_num)]
    exact and_iff_right (by positivity)
  rw [hmoved, mul_eq_zero, hbar, sub_eq_zero]

theorem barsAndBeats_of_nonneg {t : Rat} (ht : 0 ≤ t) :
    barsAndBeats t = .text (Scalar.plainText (⌊t / 4⌋ : Rat) ++ ":" ++
      Scalar.plainText (t - ((4 * ⌊t / 4⌋ : Int) : Rat)) ++ ":" ++ toString 0) := by
  have hmax : Scalar.maxOf t ((0 : Int) : Rat) = t := by
    rw [maxOf_eq_max, Int.cast_zero, max_eq_left ht]
  have hfloor : ((t / ((4 : Int) : Rat)).floor : Rat) = ⌊t / 4⌋ := rfl
  have hbeat : t - ⌊t / 4⌋ * ((4 : Int) : Rat) = t - ((4 * ⌊t / 4⌋ : Int) : Rat) := by
    push_cast
    ring
  -- The numerals of the number types are casts of integers.
  show (let beats := Scalar.maxOf t ((0 : Int) : Rat)
    let bars := ((beats / ((4 : Int) : Rat)).floor : Rat)
    WrittenTime.text (Scalar.plainText bars ++ ":" ++
      Scalar.plainText (beats - bars * ((4 : Int) : Rat)) ++ ":0")) = _
  dsimp only
  rw [hmax, hfloor, hbeat]
  simp only [String.append_assoc]
  rfl

theorem amount?_barsAndBeats {t : Rat} (ht : 0 ≤ t) (hends : Terminates t) (quarters : Rat) :
    (barsAndBeats t).amount? quarters = some (.beats (inBars quarters t)) := by
  have hbars : (0 : Rat) ≤ ⌊t / 4⌋ := by exact_mod_cast Int.floor_nonneg.mpr (by positivity)
  have hbeat : 0 ≤ t - ((4 * ⌊t / 4⌋ : Int) : Rat) := by
    push_cast
    linarith [Int.floor_le (t / 4)]
  rw [barsAndBeats_of_nonneg ht, amount?_fields (writesOut_plainText hbars (terminates_intCast _))
    (writesOut_plainText hbeat (hends.sub_intCast _)) (writesOut_toString 0)]
  unfold inBars
  push_cast
  rw [zero_div, add_zero]

def noteValues : List Rat := [1 / 4, 1 / 2, 1, 2, 4]

def noteLength (d : Rat) : Rat := if d ∈ noteValues then d else 4 / d

theorem noteLength_eq_iff {d : Rat} (hd : 0 < d) : noteLength d = d ↔ d ∈ noteValues := by
  unfold noteLength
  refine ⟨fun h => ?_, fun h => if_pos h⟩
  by_contra hother
  rw [if_neg hother, div_eq_iff hd.ne'] at h
  have htwo : d = 2 := by nlinarith
  exact hother (by simp [htwo, noteValues])

theorem exists_noteValue_of_mem {d : Rat} (h : d ∈ noteValues) :
    ∃ n : Nat, noteValue d = .text (toString n ++ "n") ∧ 0 < n ∧ 4 / (n : Rat) = d := by
  simp only [noteValues, List.mem_cons, List.not_mem_nil, or_false] at h
  rcases h with rfl | rfl | rfl | rfl | rfl
  · exact ⟨16, by decide +kernel, by norm_num⟩
  · exact ⟨8, by decide +kernel, by norm_num⟩
  · exact ⟨4, by decide +kernel, by norm_num⟩
  · exact ⟨2, by decide +kernel, by norm_num⟩
  · exact ⟨1, by decide +kernel, by norm_num⟩

theorem noteValue_of_notMem {d : Rat} (h : d ∉ noteValues) :
    noteValue d = .text (Scalar.plainText d ++ "n") := by
  have hne {x : Rat} (hx : x ∈ noteValues) : ¬ (d == x) = true := by
    rw [beq_iff_eq]
    rintro rfl
    exact h hx
  have hquarter : exactDecimalValue 25 (-2) ∈ noteValues := by decide +kernel
  have hhalf : exactDecimalValue 5 (-1) ∈ noteValues := by decide +kernel
  have hone : ((1 : Int) : Rat) ∈ noteValues := by decide +kernel
  have htwo : ((2 : Int) : Rat) ∈ noteValues := by decide +kernel
  have hfour : ((4 : Int) : Rat) ∈ noteValues := by decide +kernel
  exact congrArg WrittenTime.text ((if_neg (hne hquarter)).trans ((if_neg (hne hhalf)).trans
    ((if_neg (hne hone)).trans ((if_neg (hne htwo)).trans (if_neg (hne hfour))))))

theorem amount?_noteValue {d : Rat} (hd : 0 < d) (hends : Terminates d) (quarters : Rat) :
    (noteValue d).amount? quarters = some (.beats (noteLength d)) := by
  unfold noteLength
  split
  · next hmem =>
    obtain ⟨n, htext, hn, hlength⟩ := exists_noteValue_of_mem hmem
    rw [htext, amount?_note (writesOut_toString n) (Nat.cast_pos.mpr hn), hlength]
  · next hother =>
    rw [noteValue_of_notMem hother, amount?_note (writesOut_plainText hd.le hends) hd]

/-! ## Notes -/

/-- A note that has the times of its entry, as far as these are numbers: a time comes where bars
of four quarters put it in bars of the meter, and a length is that of its note value. -/
structure CountsBeats (fields : Fields Rat) (n : Note Rat) : Prop where
  time : ∀ t, (firstOf fields ["time", "start"]).bind Json.scalar? = some t → 0 ≤ t →
    ∃ w, n.time = some w ∧ ∀ quarters, w.amount? quarters = some (.beats (inBars quarters t)) ∧
      (w.amount? quarters = some (.beats t) ↔ t < 4 ∨ quarters = 4)
  duration : ∀ d, (firstOf fields ["duration", "length", "dur"]).bind Json.scalar? = some d →
    0 < d → ∃ w, n.duration = some w ∧ ∀ quarters,
      w.amount? quarters = some (.beats (noteLength d)) ∧
      (w.amount? quarters = some (.beats d) ↔ d ∈ noteValues)

theorem terminates_firstOf {fields : Fields Rat} (h : Reals Terminates (.obj fields))
    {keys : List String} {x : Rat} (hx : (firstOf fields keys).bind Json.scalar? = some x) :
    Terminates x := by
  obtain ⟨j, hj, hx⟩ := Option.bind_eq_some_iff.mp hx
  exact (reals_firstOf h hj).scalar? terminates_intCast hx

theorem bind_beatTime {ofBeats : Rat → WrittenTime Rat} {j : Option (Json Rat)} {x : Rat}
    (hx : j.bind Json.scalar? = some x) : j.bind (beatTime ofBeats) = some (ofBeats x) := by
  obtain ⟨i, rfl, hi⟩ := Option.bind_eq_some_iff.mp hx
  unfold beatTime
  rw [Option.bind_some]
  split
  · cases hi
  · rw [hi, Option.map_some]

theorem countsBeats_noteOf {fields : Fields Rat} (h : Reals Terminates (.obj fields)) :
    CountsBeats fields (noteOf fields) where
  time t ht hpos := by
    refine ⟨_, bind_beatTime ht, fun quarters => ?_⟩
    have hread := amount?_barsAndBeats hpos (terminates_firstOf h ht) quarters
    refine ⟨hread, ?_⟩
    rw [hread, Option.some.injEq, Amount.beats.injEq]
    exact inBars_eq_iff hpos
  duration d hd hpos := by
    refine ⟨_, bind_beatTime hd, fun quarters => ?_⟩
    have hread := amount?_noteValue hpos (terminates_firstOf h hd) quarters
    refine ⟨hread, ?_⟩
    rw [hread, Option.some.injEq, Amount.beats.injEq]
    exact noteLength_eq_iff hpos

/-- The times of the notes of an input outside the score format, as its normal form has them. -/
theorem countsBeats_normalize {text : String} {j : Json Rat} (hj : Json.parse text = .ok j)
    (hd : isDocument j = false) :
    List.Forall₂ (fun part p => List.Forall₂ CountsBeats (noteEntries part) p.noteList)
      (describedParts j) (normalize j).partList := by
  have hreals : Reals Terminates j := by
    refine reals_parse (fun digits exponent => ?_) hj
    exact ⟨terminates_exactDecimalValue _ _, (terminates_exactDecimalValue _ _).neg⟩
  have hnotes : List.Forall₂ (fun part notes => List.Forall₂ CountsBeats (noteEntries part) notes)
      (describedParts j) (noteLists (normalize j)) := by
    rw [noteLists_normalize hd]
    refine List.forall₂_map_right_iff.mpr (List.forall₂_same.mpr fun part hpart => ?_)
    refine List.forall₂_map_right_iff.mpr (List.forall₂_same.mpr fun fields hfields => ?_)
    exact countsBeats_noteOf (reals_noteEntries (reals_describedParts hreals part hpart) _ hfields)
  exact List.forall₂_map_right_iff.mp hnotes

def waltz : String :=
  "\x7b\"meter\":\"3/4\",\"tracks\":\x7b\"lead\":" ++
    "[\x7b\"note\":60,\"time\":4.5,\"duration\":3\x7d]\x7d\x7d"

theorem exists_of_check {β : Type} {x : Except String β} {P : β → Prop} [DecidablePred P]
    (h : (x.toOption.any fun b => decide (P b)) = true) : ∃ b, x = .ok b ∧ P b := by
  cases x with
  | error e => cases h
  | ok b => exact ⟨b, rfl, of_decide_eq_true h⟩

theorem countsBeats_normalize_waltz : ∃ j : Json Rat, Json.parse waltz = .ok j ∧
    isDocument j = false ∧
    List.Forall₂ (fun part p => List.Forall₂ CountsBeats (noteEntries part) p.noteList)
      (describedParts j) (normalize j).partList := by
  obtain ⟨j, hj, hd⟩ : ∃ j : Json Rat, Json.parse waltz = .ok j ∧ isDocument j = false :=
    exists_of_check (by decide +kernel)
  exact ⟨j, hj, hd, countsBeats_normalize hj hd⟩

/-- Four and a half beats become three and a half of the song's own meter, and a length of three
beats becomes a third of a whole note. -/
theorem beats_waltz : ∃ j : Json Rat, Json.parse waltz = .ok j ∧ isDocument j = false ∧
    (((describedParts j).flatMap noteEntries).map fun fields =>
      ((firstOf fields ["time", "start"]).bind Json.scalar?,
        (firstOf fields ["duration", "length", "dur"]).bind Json.scalar?)) =
      [(some (9 / 2), some 3)] ∧
    ((noteLists (normalize j)).flatten.map fun n =>
      (n.time.bind (WrittenTime.amount? (perform (normalize j)).meter.quarters),
        n.duration.bind (WrittenTime.amount? (perform (normalize j)).meter.quarters))) =
      [(some (.beats (7 / 2)), some (.beats (4 / 3)))] :=
  exists_of_check (by decide +kernel)

end Partitura
