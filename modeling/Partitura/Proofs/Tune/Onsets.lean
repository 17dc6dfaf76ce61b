import Partitura.Proofs.Tune.Bars
import Partitura.Proofs.Tune.Runs

/-!
# Where slots begin

A slot begins where none is held over from the bar before, and goes on in later bars while it
is tied. Whether a note is the first one of its slot is decided by its bar: the slot must not
start before that, up to nearness. A slot that starts just before a bar line escapes this test,
or passes it twice. If no slot starts so near before a bar line, the notes that open a slot are
those to which no tie leads, each of them stands where its slot starts, and no slot is opened
twice.
-/

namespace Partitura

section Notes

variable {α : Type} [Scalar α]

/-- A note of a voice before it is written: the bar that it stands in, the number of that bar,
the place where it begins and the slot that sounds. -/
structure LaidNote (α : Type) where
  bar : Bar α
  number : Nat
  place : α
  slot : Slot α

namespace LaidNote

def opens (n : LaidNote α) : Bool := decide (n.bar.start - nearness ≤ n.slot.start)

def ties (n : LaidNote α) : Bool := decide (n.bar.stop + nearness < n.slot.stop)

def held? (n : LaidNote α) : Option (Slot α) := if n.ties then some n.slot else none

end LaidNote

def Stretch.laidNote? (bar : Bar α) (number : Nat) (st : Stretch α) : Option (LaidNote α) :=
  st.slot?.map fun slot => ⟨bar, number, st.start, slot⟩

def laidNotes : Nat → List (Bar α) → List (Slot α) → List (LaidNote α)
  | _, [], _ => []
  | number, bar :: rest, slots =>
    (stretchesOf bar slots).1.filterMap (Stretch.laidNote? bar number)
      ++ laidNotes (number + 1) rest (stretchesOf bar slots).2

theorem bar_mem_of_laidNotes {number : Nat} {bars : List (Bar α)} {slots : List (Slot α)}
    {n : LaidNote α} (h : n ∈ laidNotes number bars slots) :
    (n.bar, n.number) ∈ bars.zipIdx number := by
  induction bars generalizing number slots with
  | nil => cases h
  | cons bar rest ih =>
    rw [List.zipIdx_cons]
    rcases List.mem_append.mp h with h | h
    · obtain ⟨st, -, hn⟩ := List.mem_filterMap.mp h
      obtain ⟨slot, -, rfl⟩ := Option.map_eq_some_iff.mp hn
      exact List.mem_cons_self
    · exact List.mem_cons_of_mem _ (ih h)

def opened (notes : List (LaidNote α)) : List (Slot α) :=
  (notes.filter LaidNote.opens).map LaidNote.slot

theorem opened_append (notes later : List (LaidNote α)) :
    opened (notes ++ later) = opened notes ++ opened later := by
  rw [opened, List.filter_append, List.map_append]
  rfl

theorem opened_cons {n : LaidNote α} (h : n.opens = true) (rest : List (LaidNote α)) :
    opened (n :: rest) = n.slot :: opened rest := by
  rw [opened, List.filter_cons_of_pos h]
  rfl

theorem opened_cons_of_not {n : LaidNote α} (h : n.opens = false) (rest : List (LaidNote α)) :
    opened (n :: rest) = opened rest := by
  rw [opened, List.filter_cons_of_neg (Bool.eq_false_iff.mp h)]
  rfl

end Notes

/-! ## Notes that follow each other -/

structure LaidNote.IsOnset (n : LaidNote Rat) : Prop where
  inBar : n.bar.start ≤ n.place ∧ n.place < n.bar.stop
  near : |n.place - n.slot.start| ≤ nearness

/-- Notes from one place on and before another one: where no slot is held over, the next note
opens one that starts there, and a slot that is held over goes on in the next note, which does
not open it. A slot may be held over at the first place and at the last one. -/
inductive Follows : Rat → Option (Slot Rat) → List (LaidNote Rat) → Rat → Option (Slot Rat) → Prop
  | nil {lo hi : Rat} (h : lo ≤ hi) (held? : Option (Slot Rat)) : Follows lo held? [] hi held?
  | begins {lo mid hi : Rat} {n : LaidNote Rat} {rest : List (LaidNote Rat)}
      {held? : Option (Slot Rat)} (hlo : lo ≤ n.place) (hmid : n.place < mid)
      (honset : n.IsOnset) (hopens : n.opens = true) (hrest : Follows mid n.held? rest hi held?) :
      Follows lo none (n :: rest) hi held?
  | goesOn {lo mid hi : Rat} {n : LaidNote Rat} {rest : List (LaidNote Rat)}
      {held? : Option (Slot Rat)} (hlo : lo ≤ n.place) (hmid : n.place < mid)
      (hopens : n.opens = false) (hrest : Follows mid n.held? rest hi held?) :
      Follows lo (some n.slot) (n :: rest) hi held?

namespace Follows

variable {lo mid hi : Rat} {held? held₁? held₂? : Option (Slot Rat)}
  {notes later : List (LaidNote Rat)}

theorem of_le (h : Follows mid held? notes hi held₁?) (hle : lo ≤ mid) :
    Follows lo held? notes hi held₁? := by
  cases h with
  | nil h => exact .nil (hle.trans h) held?
  | begins hlo hmid honset hopens hrest => exact .begins (hle.trans hlo) hmid honset hopens hrest
  | goesOn hlo hmid hopens hrest => exact .goesOn (hle.trans hlo) hmid hopens hrest

theorem append (h : Follows lo held? notes mid held₁?)
    (hlater : Follows mid held₁? later hi held₂?) :
    Follows lo held? (notes ++ later) hi held₂? := by
  induction h with
  | nil hle => exact hlater.of_le hle
  | begins hlo hmid honset hopens _ ih => exact .begins hlo hmid honset hopens (ih hlater)
  | goesOn hlo hmid hopens _ ih => exact .goesOn hlo hmid hopens (ih hlater)

end Follows

/-! ## Filling a bar -/

/-- What is left at a bar line: the slot that is held over it comes first, and where there is
none, every slot has stopped or starts no earlier than just before the line. -/
def LeftOver (place : Rat) : Option (Slot Rat) → List (Slot Rat) → Prop
  | none, slots => ∀ slot ∈ slots,
      slot.stop ≤ place + nearness ∨ place - 2 * nearness ≤ slot.start
  | some held, slots => held.start < place ∧ place + nearness < held.stop ∧
      ∃ rest, slots = held :: rest

/-- No slot starts just before a bar line: less than twice what is near. -/
def ClearOfLines (bars : List (Bar Rat)) (slots : List (Slot Rat)) : Prop :=
  ∀ bar ∈ bars, ∀ slot ∈ slots, bar.start ≤ slot.start ∨ slot.start < bar.start - 2 * nearness

instance (bars : List (Bar Rat)) (slots : List (Slot Rat)) : Decidable (ClearOfLines bars slots) :=
  inferInstanceAs (Decidable (∀ bar ∈ bars, ∀ slot ∈ slots,
    bar.start ≤ slot.start ∨ slot.start < bar.start - 2 * nearness))

def toBegin (place : Rat) : Option (Slot Rat) → List (Slot Rat) → List (Slot Rat)
  | none, slots => leftAt place slots
  | some _, slots => slots.tail

theorem leftAt_sublist_of_le {lo hi : Rat} (h : lo ≤ hi) (slots : List (Slot Rat)) :
    List.Sublist (leftAt hi slots) (leftAt lo slots) := by
  induction slots with
  | nil => exact List.Sublist.refl _
  | cons slot rest ih =>
    by_cases hpassed : slot.stop ≤ lo + nearness
    · have hlater : slot.stop ≤ hi + nearness := by linarith
      rwa [leftAt_passed hpassed, leftAt_passed hlater]
    · rw [leftAt_goesOn hpassed]
      exact leftAt_sublist hi (slot :: rest)

theorem toBegin_sublist_of_le {lo hi : Rat} (h : lo ≤ hi) (held? : Option (Slot Rat))
    (slots : List (Slot Rat)) : List.Sublist (toBegin hi held? slots) (toBegin lo held? slots) := by
  cases held? with
  | none => exact leftAt_sublist_of_le h slots
  | some held => exact List.Sublist.refl _

/-- The notes that fill a bar from a place on follow each other up to its end, and leave there
what is left at a bar line. The slots that they open and those that are still to begin there are
among the ones that were to begin, in the same order. -/
def Fills (fuel number : Nat) (bar : Bar Rat) (place : Rat) (held? : Option (Slot Rat))
    (slots : List (Slot Rat)) : Prop :=
  ∃ notes left?,
    notes = (barStretches fuel bar place slots).1.filterMap (Stretch.laidNote? bar number) ∧
    Follows place held? notes bar.stop left? ∧
    LeftOver bar.stop left? (barStretches fuel bar place slots).2 ∧
    List.Sublist (opened notes ++ toBegin bar.stop left? (barStretches fuel bar place slots).2)
      (toBegin place held? slots)

section Filling

variable {bar : Bar Rat} {place : Rat} {slot : Slot Rat} {rest slots : List (Slot Rat)}
  {fuel number : Nat}

theorem fills_closed {held? : Option (Slot Rat)} (hclosed : ¬place < bar.stop - nearness)
    (hplace : place ≤ bar.stop) (hleft : LeftOver bar.stop held? slots) :
    Fills fuel number bar place held? slots := by
  unfold Fills
  rw [barStretches_closed hclosed]
  exact ⟨[], held?, rfl, .nil hplace held?, hleft, toBegin_sublist_of_le hplace held? slots⟩

theorem fills_passed (h : Fills (fuel + 1) number bar place none rest)
    (hopen : place < bar.stop - nearness) (hpassed : slot.stop ≤ place + nearness) :
    Fills (fuel + 1) number bar place none (slot :: rest) := by
  have hleft : toBegin place none (slot :: rest) = toBegin place none rest :=
    leftAt_passed hpassed rest
  unfold Fills at h ⊢
  rwa [barStretches_passed hopen hpassed, hleft]

theorem toBegin_after (place : Rat) :
    List.Sublist (toBegin (min slot.stop bar.stop) (LaidNote.held? ⟨bar, number, place, slot⟩)
      (slot :: rest)) rest := by
  by_cases hties : bar.stop + nearness < slot.stop
  · simp only [LaidNote.held?, LaidNote.ties, decide_eq_true hties, if_true]
    exact List.Sublist.refl _
  · have hnearness := nearness_eq
    have hpassed : slot.stop ≤ min slot.stop bar.stop + nearness := by
      rw [← min_add_add_right, le_min_iff]
      exact ⟨by linarith, not_lt.mp hties⟩
    simp only [LaidNote.held?, LaidNote.ties, decide_eq_false hties, if_neg Bool.false_ne_true]
    rw [toBegin, leftAt_passed hpassed]
    exact leftAt_sublist _ rest

section Recursion

variable
  (hrecur : ∀ {place : Rat} {fuel : Nat}, bar.start ≤ place → place ≤ bar.stop →
    (∀ later ∈ rest, place - nearness ≤ later.start) → 2 * rest.length + 1 ≤ fuel →
    Fills fuel number bar place none rest)
  (hlater : ∀ later ∈ rest, slot.stop - nearness ≤ later.start)
  (hfuel : 2 * rest.length + 1 ≤ fuel)

include hrecur hlater hfuel

theorem fills_after (place : Rat) (hstart : slot.start < bar.stop) (hstop : bar.start ≤ slot.stop) :
    Fills fuel number bar (min slot.stop bar.stop)
      (LaidNote.held? ⟨bar, number, place, slot⟩) (slot :: rest) := by
  have hnearness := nearness_eq
  by_cases hends : slot.stop < bar.stop - nearness
  · obtain ⟨fuel, rfl⟩ : ∃ k, fuel = k + 1 := ⟨fuel - 1, by omega⟩
    have hle : slot.stop ≤ bar.stop := by linarith
    have hnone : LaidNote.held? ⟨bar, number, place, slot⟩ = none := by
      have hties : ¬bar.stop + nearness < slot.stop := by linarith
      simp [LaidNote.held?, LaidNote.ties, hties]
    rw [min_eq_left hle, hnone]
    exact fills_passed (hrecur hstop hle hlater hfuel) hends (by linarith)
  · have hclosed : ¬min slot.stop bar.stop < bar.stop - nearness := by
      rw [min_lt_iff, not_or]
      exact ⟨hends, by linarith⟩
    refine fills_closed hclosed (min_le_right _ _) ?_
    by_cases hties : bar.stop + nearness < slot.stop
    · simp only [LaidNote.held?, LaidNote.ties, decide_eq_true hties, if_true]
      exact ⟨hstart, hties, rest, rfl⟩
    · simp only [LaidNote.held?, LaidNote.ties, decide_eq_false hties, if_neg Bool.false_ne_true]
      refine List.forall_mem_cons.mpr ⟨.inl (not_lt.mp hties), fun later h => .inr ?_⟩
      have hstart := hlater later h
      linarith [not_lt.mp hends]

theorem fills_started (hbar : bar.start ≤ place) (hopen : place < bar.stop - nearness)
    (hgoes : ¬slot.stop ≤ place + nearness) (hstarted : slot.start ≤ place + nearness)
    (hnear : place - nearness ≤ slot.start) :
    Fills (fuel + 1) number bar place none (slot :: rest) := by
  have hnearness := nearness_eq
  obtain ⟨notes, left?, rfl, hfollows, hleft, hopened⟩ :=
    fills_after hrecur hlater hfuel place (by linarith) (by linarith)
  have hopens : LaidNote.opens ⟨bar, number, place, slot⟩ = true := decide_eq_true (by linarith)
  have hall : toBegin place none (slot :: rest) = slot :: rest := leftAt_goesOn hgoes rest
  unfold Fills
  rw [barStretches_started hopen hgoes hstarted, hall]
  refine ⟨⟨bar, number, place, slot⟩ :: _, left?, rfl,
    .begins le_rfl ?_ ⟨⟨hbar, ?_⟩, ?_⟩ hopens hfollows, hleft, ?_⟩
  · exact lt_min (by linarith) (by linarith)
  · linarith
  · exact abs_le.mpr ⟨by linarith, by linarith⟩
  · rw [opened_cons hopens]
    exact (hopened.trans (toBegin_after place)).cons_cons slot

theorem fills_held (hopen : bar.start < bar.stop - nearness)
    (hstart : slot.start < bar.start - 2 * nearness) (hgoes : bar.start + nearness < slot.stop) :
    Fills (fuel + 1) number bar bar.start (some slot) (slot :: rest) := by
  have hnearness := nearness_eq
  obtain ⟨notes, left?, rfl, hfollows, hleft, hopened⟩ :=
    fills_after hrecur hlater hfuel bar.start (by linarith) (by linarith)
  have hopens : LaidNote.opens ⟨bar, number, bar.start, slot⟩ = false :=
    decide_eq_false (by linarith)
  unfold Fills
  rw [barStretches_started hopen hgoes.not_ge (by linarith)]
  refine ⟨⟨bar, number, bar.start, slot⟩ :: _, left?, rfl, .goesOn le_rfl ?_ hopens hfollows,
    hleft, ?_⟩
  · exact lt_min (by linarith) (by linarith)
  · rw [opened_cons_of_not hopens]
    exact hopened.trans (toBegin_after bar.start)

theorem fills_before (hbar : bar.start ≤ slot.start)
    (hlasts : slot.start + nearness ≤ slot.stop) :
    Fills (fuel + 1) number bar (min slot.start bar.stop) none (slot :: rest) := by
  have hnearness := nearness_eq
  have hafter : ∀ later ∈ rest, slot.start ≤ later.start := fun later h => by
    have hlater := hlater later h
    linarith
  by_cases hin : slot.start < bar.stop - nearness
  · rw [min_eq_left (by linarith)]
    by_cases hshort : slot.stop ≤ slot.start + nearness
    · refine fills_passed (hrecur hbar (by linarith) (fun later h => ?_) (by omega)) hin hshort
      linarith [hafter later h]
    · exact fills_started hrecur hlater hfuel hbar hin hshort (by linarith) (by linarith)
  · have hclosed : ¬min slot.start bar.stop < bar.stop - nearness := by
      rw [min_lt_iff, not_or]
      exact ⟨hin, by linarith⟩
    refine fills_closed hclosed (min_le_right _ _) (List.forall_mem_cons.mpr ⟨.inr ?_, ?_⟩)
    · linarith
    · intro later h
      exact .inr (by linarith [hafter later h])

end Recursion

theorem fills_unbegun (hturns : TakeTurns slots) (hbar : bar.start ≤ place)
    (hplace : place ≤ bar.stop)
    (hslots : ∀ slot ∈ slots, slot.stop ≤ place + nearness ∨ place - nearness ≤ slot.start)
    (hfuel : 2 * slots.length + 1 ≤ fuel) : Fills fuel number bar place none slots := by
  have hnearness := nearness_eq
  -- By the slots: each of them takes at most a rest and a note.
  induction slots generalizing place fuel with
  | nil =>
    have hnone : LeftOver bar.stop none [] := fun slot hslot => absurd hslot List.not_mem_nil
    obtain ⟨fuel, rfl⟩ : ∃ k, fuel = k + 1 := ⟨fuel - 1, by omega⟩
    by_cases hopen : place < bar.stop - nearness
    · have hlater : barStretches fuel bar bar.stop [] = ([], []) := barStretches_full le_rfl
      simp only [Fills, barStretches, if_pos hopen, leftAt, List.dropWhile_nil, nextStretch, hlater]
      exact ⟨[], none, rfl, .nil hplace none, hnone, List.Sublist.refl _⟩
    · exact fills_closed hopen hplace hnone
  | cons slot rest ih =>
    have hlasts := hturns.lasts slot List.mem_cons_self
    have hlater := hturns.first
    have hrest := hturns.tail
    have hrecur {place : Rat} {fuel : Nat} (hbar : bar.start ≤ place) (hplace : place ≤ bar.stop)
        (hlater : ∀ later ∈ rest, place - nearness ≤ later.start)
        (hfuel : 2 * rest.length + 1 ≤ fuel) : Fills fuel number bar place none rest :=
      ih hrest hbar hplace (fun later h => .inr (hlater later h)) hfuel
    rw [List.length_cons] at hfuel
    obtain ⟨fuel, rfl⟩ : ∃ k, fuel = k + 2 := ⟨fuel - 2, by omega⟩
    by_cases hopen : place < bar.stop - nearness
    · obtain ⟨hslot, hothers⟩ := List.forall_mem_cons.mp hslots
      by_cases hpassed : slot.stop ≤ place + nearness
      · exact fills_passed (ih hrest hbar hplace hothers (by omega)) hopen hpassed
      · have hnear := hslot.resolve_left hpassed
        by_cases hstarted : slot.start ≤ place + nearness
        · exact fills_started hrecur hlater (by omega) hbar hopen hpassed hstarted hnear
        · have hbefore :
              Fills (fuel + 1) number bar (min slot.start bar.stop) none (slot :: rest) :=
            fills_before hrecur hlater (by omega) (by linarith) hlasts
          obtain ⟨notes, left?, rfl, hfollows, hleft, hopened⟩ := hbefore
          have hle : place ≤ min slot.start bar.stop := le_min (by linarith) hplace
          unfold Fills
          rw [barStretches_before hopen hpassed hstarted]
          exact ⟨_, left?, rfl, hfollows.of_le hle, hleft,
            hopened.trans (toBegin_sublist_of_le hle none (slot :: rest))⟩
    · refine fills_closed hopen hplace fun held h => (hslots held h).imp ?_ ?_
      · intro hstop
        linarith
      · intro hstart
        linarith

/-- A bar goes on with what is left at its start. -/
theorem fills_bar {held? : Option (Slot Rat)} (hlasts : bar.start < bar.stop - nearness)
    (hturns : TakeTurns slots)
    (hclear : ∀ slot ∈ slots, bar.start ≤ slot.start ∨ slot.start < bar.start - 2 * nearness)
    (hleft : LeftOver bar.start held? slots) :
    Fills (2 * slots.length + 2) number bar bar.start held? slots := by
  have hnearness := nearness_eq
  cases held? with
  | none =>
    refine fills_unbegun hturns le_rfl (by linarith) (fun slot hslot => ?_) (by omega)
    refine (hleft slot hslot).imp_right fun hstart => ?_
    have hclear := (hclear slot hslot).resolve_right hstart.not_gt
    linarith
  | some held =>
    obtain ⟨hstart, hgoes, rest, rfl⟩ := hleft
    have hlater := hturns.first
    have hrest := hturns.tail
    have hclear := (hclear held List.mem_cons_self).resolve_left hstart.not_ge
    rw [List.length_cons]
    exact fills_held (fun hbar hplace hlater hfuel =>
      fills_unbegun hrest hbar hplace (fun later h => .inr (hlater later h)) hfuel)
      hlater (by omega) hlasts hclear hgoes

end Filling

/-! ## Voices -/

/-- Unless a slot starts just before a bar line, the notes of a voice follow each other, and no
slot is held over at its end. They open slots in their order, each at most once. -/
theorem follows_laidNotes {lo hi : Rat} {bars : List (Bar Rat)} {slots : List (Slot Rat)}
    {held? : Option (Slot Rat)} (htiles : Tiles lo bars hi)
    (hlasts : ∀ bar ∈ bars, bar.start < bar.stop - nearness) (hturns : TakeTurns slots)
    (hclear : ClearOfLines bars slots) (hreach : ∀ slot ∈ slots, slot.stop - nearness ≤ hi)
    (hleft : LeftOver lo held? slots) (number : Nat) :
    Follows lo held? (laidNotes number bars slots) hi none ∧
      List.Sublist (opened (laidNotes number bars slots)) (toBegin lo held? slots) := by
  induction bars generalizing lo slots held? number with
  | nil =>
    obtain rfl : lo = hi := htiles
    cases held? with
    | none => exact ⟨.nil le_rfl none, List.nil_sublist _⟩
    | some held =>
      obtain ⟨-, hgoes, rest, rfl⟩ := hleft
      have hstop := hreach held List.mem_cons_self
      linarith
  | cons bar rest ih =>
    obtain ⟨rfl, -, hrest⟩ := htiles
    obtain ⟨hbar, hbars⟩ := List.forall_mem_cons.mp hlasts
    obtain ⟨hclearBar, hclear⟩ := List.forall_mem_cons.mp hclear
    have hfills : Fills (2 * slots.length + 2) number bar bar.start held? slots :=
      fills_bar hbar hturns hclearBar hleft
    obtain ⟨notes, left?, hnotes, hfollows, hleft, hopened⟩ := hfills
    obtain ⟨gone, hsplit, -⟩ :=
      barStretches_gone (2 * slots.length + 2) bar bar.start slots
    have hmem : (stretchesOf bar slots).2 ⊆ slots := (barStretches_left _ bar _ slots).subset
    rw [hsplit] at hturns
    obtain ⟨hlater, hrestOpened⟩ := ih hrest hbars hturns.suffix
      (fun later hlater slot hslot => hclear later hlater slot (hmem hslot))
      (fun slot hslot => hreach slot (hmem hslot)) hleft (number + 1)
    rw [laidNotes, stretchesOf, ← hnotes, opened_append]
    exact ⟨hfollows.append hlater,
      ((List.Sublist.refl (opened notes)).append hrestOpened).trans hopened⟩

end Partitura
