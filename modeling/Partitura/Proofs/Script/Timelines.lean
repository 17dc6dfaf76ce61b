import Partitura.Proofs.Performance.Passes
import Partitura.Proofs.Tune.Slots
import Partitura.Score.Build
import Partitura.Script.Steps

/-!
# Tunes and patterns sound together

A tune and a pattern are made of the same notes, each in its own way: a slot gathers pitches,
and a step the numbers of pitches. When something sounds, and how loud it is, does not depend
on what is gathered. So both come from the notes by one rule on spans, and a part that does
not loop has the same spans in its tune and in its pattern.
-/

namespace Partitura

/-- What is left of a note or chord without its pitches: from when on and until when it
sounds, in beats, and how loud it is. -/
structure Span (α : Type) where
  start : α
  stop : α
  level : α
deriving DecidableEq

variable {α : Type} [Scalar α]

def Slot.span (s : Slot α) : Span α := ⟨s.start, s.stop, s.velocity⟩

def Script.Step.span (s : Script.Step α) : Span α := ⟨s.start, s.stop, s.level⟩

def noteSpan (tempo : TempoMap α) (n : PlayedNote α) : Span α :=
  ⟨tempo.beatAtSeconds n.start, tempo.beatAtSeconds n.stop, n.velocity⟩

/-- Adds a span to spans of which the last one comes first: it joins one that starts where it
does, and cuts one that still sounds. -/
def addSpan (spans : List (Span α)) (next : Span α) : List (Span α) :=
  match spans with
  | [] => [next]
  | last :: earlier =>
    if Scalar.magnitude (next.start - last.start) < nearness then
      { last with stop := Scalar.maxOf last.stop next.stop } :: earlier
    else if next.start < last.stop - nearness then
      next :: { last with stop := next.start } :: earlier
    else next :: last :: earlier

theorem span_addSlot (slots : List (Slot α)) (next : Slot α) :
    (addSlot slots next).map Slot.span = addSpan (slots.map Slot.span) next.span := by
  cases slots with
  | nil => rfl
  | cons last earlier =>
    simp only [addSlot, addSpan, List.map_cons]
    rw [apply_ite (List.map Slot.span), apply_ite (List.map Slot.span)]
    rfl

theorem span_addStep (steps : List (Script.Step α)) (next : Script.Step α) :
    (Script.addStep steps next).map Script.Step.span =
      addSpan (steps.map Script.Step.span) next.span := by
  cases steps with
  | nil => rfl
  | cons last earlier =>
    simp only [Script.addStep, addSpan, List.map_cons]
    rw [apply_ite (List.map Script.Step.span), apply_ite (List.map Script.Step.span)]
    rfl

def spansOf (tempo : TempoMap α) (notes : List (PlayedNote α)) : List (Span α) :=
  ((notes.map (noteSpan tempo)).foldl addSpan []).reverse

theorem span_slots (tempo : TempoMap α) (path : String) (part : PlayedPart α) :
    (slots tempo path part).value.map Slot.span = spansOf tempo (heardNotes tempo part) := by
  have hfold : (heardNotes tempo part).foldl (fun spans n => addSpan spans (noteSpan tempo n))
      ([].map Slot.span) = ((heardNotes tempo part).foldl (fun slots n =>
        addSlot slots (slotAlone tempo n)) []).map Slot.span :=
    List.foldl_hom (List.map Slot.span) fun slots n =>
      (span_addSlot slots (slotAlone tempo n)).symm
  rw [value_slots, List.map_reverse, spansOf, List.foldl_map, List.foldl_map]
  exact congrArg List.reverse hfold.symm

namespace Script

/-- Without a period, the notes that have a step are those that have a slot. -/
theorem span_noteStep (tempo : TempoMap α) (path : String) (n : PlayedNote α) :
    ((noteStep tempo none path n).value).map Step.span =
      if isHeard tempo n then some (noteSpan tempo n) else none := by
  have hheard : isHeard tempo n = true ↔
      ¬(tempo.beatAtSeconds n.stop - tempo.beatAtSeconds n.start < nearness ∨
        n.pitches.isEmpty = true) := by
    simp [isHeard]
  unfold noteStep
  simp only [Bool.false_eq_true, false_or, hheard, ite_not]
  split
  · rfl
  · rfl

theorem span_steps {tempo : TempoMap α} {part : PlayedPart α}
    (h : periodBeats tempo part = none) (path : String) :
    (steps tempo path part).value.map Step.span =
      spansOf tempo (part.sortedNotes.filter (isHeard tempo)) := by
  have hsingle : (part.sortedNotes.filterMap
      fun n => (noteStep tempo none path n).value).map Step.span =
        (part.sortedNotes.filter (isHeard tempo)).map (noteSpan tempo) := by
    rw [List.map_filterMap, ← List.filterMap_eq_map, List.filterMap_filter]
    simp only [span_noteStep, Function.comp_apply]
  have hfold : (part.sortedNotes.filterMap fun n => (noteStep tempo none path n).value).foldl
      (fun spans s => addSpan spans s.span) ([].map Step.span) =
        ((part.sortedNotes.filterMap fun n => (noteStep tempo none path n).value).foldl
          addStep []).map Step.span :=
    List.foldl_hom (List.map Step.span) fun steps next => (span_addStep steps next).symm
  simp only [steps, h, Outcome.value_bind, Outcome.value_collectSome, Outcome.value_pure,
    List.filterMap_map, List.map_reverse, spansOf]
  rw [← hsingle, List.foldl_map]
  exact congrArg List.reverse hfold.symm

/-- What a part sounds like that does not loop, one note or chord after the other, is the same
in a pattern and in a tune, whatever its notes and the tempos are. -/
theorem span_steps_eq (tempo : TempoMap α) (path tunePath : String) {part : PlayedPart α}
    (h : part.repetition = .once) :
    (steps tempo path part).value.map Step.span =
      (slots tempo tunePath part).value.map Slot.span := by
  have hperiod : periodBeats tempo part = none := by
    rw [periodBeats, h, Repetition.period?, Option.map_none]
  have hexpanded : part.expandedNotes = part.notes := by
    rw [PlayedPart.expandedNotes, h]
  rw [span_steps hperiod, span_slots, heardNotes, hexpanded]
  rfl

/-- Two notes that start together join, the longer of them is cut by a chord, and an empty chord
and a note without a length are left out. -/
theorem span_steps_eq_overlaps :
    let low : Note Rat := .sounding (.single (.name "C4")) (.seconds 0) (.seconds 1)
    let high : Note Rat := .sounding (.single (.name "E4")) (.seconds 0) (.seconds 3)
    let chord : Note Rat := .sounding (.chord [.name "G4", .midi 72]) (.seconds 2) (.seconds 2)
    let silent : Note Rat := .sounding (.chord []) (.seconds 1) (.seconds 1)
    let short : Note Rat := .sounding (.single (.name "B4")) (.seconds (3 / 2)) (.seconds 0)
    let lead : Part Rat := (Part.labelled "lead" (some [low, high, silent, short, chord])).playing
      "kit"
    let song : Score Rat := { Score.empty with bpm := some 60, parts := some [lead] }
    ∃ part ∈ (perform song).parts, part.repetition = .once ∧
      (steps (perform song).tempo "lead" part).value.map Step.span =
        (slots (perform song).tempo "voice" part).value.map Slot.span ∧
      (slots (perform song).tempo "voice" part).value.map Slot.span =
        [⟨0, 2, 4 / 5⟩, ⟨2, 4, 4 / 5⟩] := by
  intro low high chord silent short lead song
  have hpart := List.mem_of_getElem? (getElem?_parts (s := song) (i := 0) (p := lead) rfl)
  generalize hplayed : (playPart song (perform song).timeLine 0 lead).value = part at hpart
  have honce : part.repetition = .once := by
    rw [← hplayed]
    decide +kernel
  have hspans : spansOf (perform song).tempo (heardNotes (perform song).tempo part) =
      [⟨0, 2, 4 / 5⟩, ⟨2, 4, 4 / 5⟩] := by
    rw [← hplayed, heardNotes, sortByTime, List.mergeSort_of_pairwise (by decide +kernel)]
    decide +kernel
  exact ⟨part, hpart, honce, span_steps_eq _ _ _ honce, (span_slots _ _ part).trans hspans⟩

end Script

end Partitura
