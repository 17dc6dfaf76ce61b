import Partitura.Tune.OfPerformance

/-!
# The stretches of a voice

What a voice writes at a place is decided by the bars and by the slots that are left,
and by nothing else that it goes on with. The stretches of a voice are that decision alone:
one follows the other, each has a start and a stop, and each is a rest or a part of one
slot. Laying a voice is writing its stretches one after the other.
-/

namespace Partitura

variable {α : Type} [Scalar α]

structure Stretch (α : Type) where
  start : α
  stop : α
  slot? : Option (Slot α)

def leftAt (place : α) (slots : List (Slot α)) : List (Slot α) :=
  slots.dropWhile fun slot => decide (slot.stop ≤ place + nearness)

def nextStretch (bar : Bar α) (place : α) : List (Slot α) → Stretch α
  | [] => ⟨place, bar.stop, none⟩
  | slot :: _ =>
    if slot.start ≤ place + nearness then ⟨place, Scalar.minOf slot.stop bar.stop, some slot⟩
    else ⟨place, Scalar.minOf slot.start bar.stop, none⟩

def barStretches : Nat → Bar α → α → List (Slot α) → List (Stretch α) × List (Slot α)
  | 0, _, _, slots => ([], slots)
  | fuel + 1, bar, place, slots =>
    if place < bar.stop - nearness then
      let left := leftAt place slots
      let next := nextStretch bar place left
      let later := barStretches fuel bar next.stop left
      (next :: later.1, later.2)
    else ([], slots)

/-- The stretches of a whole bar. Every slot takes at most a rest and a note. -/
def stretchesOf (bar : Bar α) (slots : List (Slot α)) : List (Stretch α) × List (Slot α) :=
  barStretches (2 * slots.length + 2) bar bar.start slots

theorem leftAt_sublist (place : α) (slots : List (Slot α)) :
    List.Sublist (leftAt place slots) slots := List.dropWhile_sublist _

theorem leftAt_passed {place : α} {slot : Slot α} (h : slot.stop ≤ place + nearness)
    (rest : List (Slot α)) : leftAt place (slot :: rest) = leftAt place rest := by
  simp [leftAt, h]

theorem leftAt_goesOn {place : α} {slot : Slot α} (h : ¬slot.stop ≤ place + nearness)
    (rest : List (Slot α)) : leftAt place (slot :: rest) = slot :: rest := by
  simp [leftAt, h]

theorem barStretches_left (fuel : Nat) (bar : Bar α) (place : α) (slots : List (Slot α)) :
    List.Sublist (barStretches fuel bar place slots).2 slots := by
  induction fuel generalizing place slots with
  | zero => exact List.Sublist.refl _
  | succ fuel ih =>
    simp only [barStretches]
    split
    · exact (ih _ _).trans (leftAt_sublist place slots)
    · exact List.Sublist.refl _

def Stretch.FitsIn (st : Stretch α) (bar : Bar α) : Prop :=
  ∀ slot, st.slot? = some slot → st.stop = Scalar.minOf slot.stop bar.stop

theorem nextStretch_fitsIn (bar : Bar α) (place : α) (slots : List (Slot α)) :
    (nextStretch bar place slots).FitsIn bar := by
  intro slot hslot
  cases slots with
  | nil => cases hslot
  | cons first rest =>
    simp only [nextStretch] at hslot ⊢
    split at hslot
    · next hstart =>
      cases hslot
      rw [if_pos hstart]
    · cases hslot

theorem barStretches_fitsIn {fuel : Nat} {bar : Bar α} {place : α} {slots : List (Slot α)}
    {st : Stretch α} (hst : st ∈ (barStretches fuel bar place slots).1) : st.FitsIn bar := by
  induction fuel generalizing place slots with
  | zero => cases hst
  | succ fuel ih =>
    simp only [barStretches] at hst
    split at hst
    · rcases List.mem_cons.mp hst with rfl | hst
      · exact nextStretch_fitsIn bar place _
      · exact ih hst
    · cases hst

/-! ## Writing -/

def takeTempos (place : α) (s : VoiceState α) : List Element × VoiceState α :=
  ((s.cues.tempos.takeWhile (isDue place)).map fun t => .field (.tempo t.2),
    { s with cues := { s.cues with tempos := s.cues.tempos.dropWhile (isDue place) } })

def writeStretch (bar : Bar α) (st : Stretch α) (s : VoiceState α) :
    List Element × VoiceState α :=
  let (tempos, s) := takeTempos st.start s
  match st.slot? with
  | none => (tempos ++ [.rest (Length.ofQuarters (st.stop - st.start))], s)
  | some slot =>
    let (token, s) := slotToken bar st.start slot s
    (tempos ++ [.note token], s)

def writeStretches (bar : Bar α) : List (Stretch α) → VoiceState α →
    List Element × VoiceState α
  | [], s => ([], s)
  | st :: rest, s =>
    let (elements, s) := writeStretch bar st s
    let (later, s) := writeStretches bar rest s
    (elements ++ later, s)

def VoiceState.withSlots (s : VoiceState α) (slots : List (Slot α)) : VoiceState α :=
  { s with slots := slots }

theorem slotToken_withSlots (bar : Bar α) (place : α) (slot : Slot α) (s : VoiceState α)
    (slots : List (Slot α)) : slotToken bar place slot (s.withSlots slots) =
      ((slotToken bar place slot s).1, (slotToken bar place slot s).2.withSlots slots) := by
  simp only [slotToken, VoiceState.withSlots, openSlot]
  split <;> rfl

theorem writeStretch_withSlots (bar : Bar α) (st : Stretch α) (s : VoiceState α)
    (slots : List (Slot α)) : writeStretch bar st (s.withSlots slots) =
      ((writeStretch bar st s).1, (writeStretch bar st s).2.withSlots slots) := by
  have htempos : takeTempos st.start (s.withSlots slots) =
      ((takeTempos st.start s).1, (takeTempos st.start s).2.withSlots slots) := rfl
  cases hslot : st.slot? with
  | none => simp only [writeStretch, hslot, htempos]
  | some slot => simp only [writeStretch, hslot, htempos, slotToken_withSlots]

theorem writeStretches_withSlots (bar : Bar α) (sts : List (Stretch α)) (s : VoiceState α)
    (slots : List (Slot α)) : writeStretches bar sts (s.withSlots slots) =
      ((writeStretches bar sts s).1, (writeStretches bar sts s).2.withSlots slots) := by
  induction sts generalizing s with
  | nil => rfl
  | cons st rest ih => simp only [writeStretches, writeStretch_withSlots, ih]

theorem fillBar_succ (fuel : Nat) (bar : Bar α) (place : α) (s : VoiceState α)
    (hplace : place < bar.stop - nearness) :
    fillBar (fuel + 1) bar place s =
      let left := leftAt place s.slots
      let next := nextStretch bar place left
      let here := writeStretch bar next (s.withSlots left)
      let later := fillBar fuel bar next.stop here.2
      (here.1 ++ later.1, later.2) := by
  cases hleft : leftAt place s.slots with
  | nil =>
    have hdrop : (s.slots.dropWhile fun slot => decide (slot.stop ≤ place + nearness)) = [] :=
      hleft
    simp only [fillBar, if_pos hplace, hdrop, nextStretch, writeStretch, takeTempos,
      VoiceState.withSlots, List.append_assoc, List.singleton_append]
  | cons slot rest =>
    have hdrop : (s.slots.dropWhile fun slot => decide (slot.stop ≤ place + nearness)) =
      slot :: rest := hleft
    by_cases hstart : slot.start ≤ place + nearness
    · simp only [fillBar, if_pos hplace, hdrop, nextStretch, if_pos hstart, writeStretch,
        takeTempos, VoiceState.withSlots, List.append_assoc, List.singleton_append]
    · simp only [fillBar, if_pos hplace, hdrop, nextStretch, if_neg hstart, writeStretch,
        takeTempos, VoiceState.withSlots, List.append_assoc, List.singleton_append]

theorem fillBar_eq (fuel : Nat) (bar : Bar α) (place : α) (s : VoiceState α) :
    fillBar fuel bar place s =
      ((writeStretches bar (barStretches fuel bar place s.slots).1 s).1,
        (writeStretches bar (barStretches fuel bar place s.slots).1 s).2.withSlots
          (barStretches fuel bar place s.slots).2) := by
  induction fuel generalizing place s with
  | zero => rfl
  | succ fuel ih =>
    by_cases hplace : place < bar.stop - nearness
    · rw [fillBar_succ fuel bar place s hplace]
      simp only [ih, barStretches, if_pos hplace, writeStretches,
        writeStretch_withSlots, writeStretches_withSlots]
      rfl
    · simp only [fillBar, barStretches, if_neg hplace]
      rfl

def barFields (bar : Bar α) : List Element :=
  (bar.meter.map fun m => .field (.meter m)).toList
    ++ (bar.key.map fun k => .field (.key k)).toList

def VoiceState.enter (s : VoiceState α) (bar : Bar α) : VoiceState α :=
  { s with key := bar.key.getD s.key, marks := [] }

theorem layBar_eq (bar : Bar α) (s : VoiceState α) :
    layBar bar s =
      (barFields bar ++ (writeStretches bar (stretchesOf bar s.slots).1 (s.enter bar)).1,
        (writeStretches bar (stretchesOf bar s.slots).1 (s.enter bar)).2.withSlots
          (stretchesOf bar s.slots).2) := by
  have hfill := fillBar_eq (2 * s.slots.length + 2) bar bar.start (s.enter bar)
  simp only [layBar]
  exact congrArg (fun filled => (barFields bar ++ filled.1, filled.2)) hfill

end Partitura
