import Partitura.Proofs.Performance.Passes
import Partitura.Proofs.Tune.Grid
import Partitura.Proofs.Tune.Slots

/-!
# Slots take turns

A voice sounds one slot at a time. The notes of a part come in the order of their starts; a
slot that starts with the last one joins it, one that starts before the last one stops cuts
it there, and any other starts when the last one has stopped. So every slot lasts, and has
stopped when the next one starts, up to places that are near enough to be one.
-/

namespace Partitura

/-- Slots from the start of the time line on, each of which lasts and has stopped when the
next one starts, as far as places are told apart. -/
structure TakeTurns (slots : List (Slot Rat)) : Prop where
  starts : ∀ slot ∈ slots, 0 ≤ slot.start
  lasts : ∀ slot ∈ slots, slot.start + nearness ≤ slot.stop
  turns : slots.IsChain fun a b => a.stop ≤ b.start + nearness

theorem takeTurns_nil : TakeTurns [] := ⟨nofun, nofun, .nil⟩

theorem takeTurns_concat {slots : List (Slot Rat)} {slot : Slot Rat} :
    TakeTurns (slots ++ [slot]) ↔ TakeTurns slots ∧ 0 ≤ slot.start ∧
      slot.start + nearness ≤ slot.stop ∧
      ∀ last ∈ slots.getLast?, last.stop ≤ slot.start + nearness := by
  constructor
  · rintro ⟨hstarts, hlasts, hturns⟩
    obtain ⟨hstarts, hstart⟩ := List.forall_mem_append.mp hstarts
    obtain ⟨hlasts, hlast⟩ := List.forall_mem_append.mp hlasts
    obtain ⟨hturns, -, hturn⟩ := List.isChain_append.mp hturns
    exact ⟨⟨hstarts, hlasts, hturns⟩, hstart slot List.mem_cons_self,
      hlast slot List.mem_cons_self, fun last h => hturn last h slot rfl⟩
  · rintro ⟨⟨hstarts, hlasts, hturns⟩, hstart, hlast, hturn⟩
    refine ⟨List.forall_mem_append.mpr ⟨hstarts, ?_⟩, List.forall_mem_append.mpr ⟨hlasts, ?_⟩,
      List.isChain_append.mpr ⟨hturns, .singleton _, ?_⟩⟩
    · simpa using hstart
    · simpa using hlast
    · rintro last h _ ⟨⟩
      exact hturn last h

theorem TakeTurns.suffix {gone left : List (Slot Rat)} (h : TakeTurns (gone ++ left)) :
    TakeTurns left :=
  ⟨fun slot hslot => h.starts slot (List.mem_append_right _ hslot),
    fun slot hslot => h.lasts slot (List.mem_append_right _ hslot), h.turns.right_of_append⟩

theorem TakeTurns.tail {slot : Slot Rat} {rest : List (Slot Rat)} (h : TakeTurns (slot :: rest)) :
    TakeTurns rest := @TakeTurns.suffix [slot] rest h

theorem TakeTurns.first {slot : Slot Rat} {rest : List (Slot Rat)} (h : TakeTurns (slot :: rest)) :
    ∀ later ∈ rest, slot.stop - nearness ≤ later.start := by
  have hnearness := nearness_eq
  induction rest generalizing slot with
  | nil => exact nofun
  | cons next rest ih =>
    have hturn := (List.isChain_cons_cons.mp h.turns).1
    refine List.forall_mem_cons.mpr ⟨by linarith, fun later hlater => ?_⟩
    have hnext := h.tail.lasts next List.mem_cons_self
    have hstart := ih h.tail later hlater
    linarith

/-- A slot that starts no earlier than the others takes its turn after them. -/
theorem takeTurns_addSlot {slots : List (Slot Rat)} {next : Slot Rat}
    (h : TakeTurns slots.reverse) (hstart : 0 ≤ next.start)
    (hlasts : next.start + nearness ≤ next.stop)
    (hafter : ∀ slot ∈ slots, slot.start ≤ next.start) :
    TakeTurns (addSlot slots next).reverse := by
  have hnearness := nearness_eq
  cases slots with
  | nil => exact takeTurns_concat.mpr ⟨takeTurns_nil, hstart, hlasts, nofun⟩
  | cons last earlier =>
    rw [List.reverse_cons] at h
    obtain ⟨hearlier, hlast, hstop, hturn⟩ := takeTurns_concat.mp h
    have hle : last.start ≤ next.start := hafter last List.mem_cons_self
    simp only [addSlot]
    rw [le_magnitude (sub_nonneg.mpr hle), maxOf_eq_max]
    split
    · rw [List.reverse_cons]
      exact takeTurns_concat.mpr ⟨hearlier, hlast, hstop.trans (le_max_left _ _), hturn⟩
    · next hlater =>
      split
      · -- The last slot is cut where the next one starts.
        rw [List.reverse_cons, List.reverse_cons]
        refine takeTurns_concat.mpr ⟨takeTurns_concat.mpr ⟨hearlier, hlast, ?_, hturn⟩, hstart,
          hlasts, ?_⟩
        · show last.start + nearness ≤ next.start
          linarith
        · simp only [List.getLast?_concat, Option.mem_def, Option.some.injEq, forall_eq']
          linarith
      · next hstopped =>
        rw [List.reverse_cons, List.reverse_cons]
        refine takeTurns_concat.mpr ⟨h, hstart, hlasts, ?_⟩
        simp only [List.getLast?_concat, Option.mem_def, Option.some.injEq, forall_eq']
        linarith

theorem start_addSlot {slots : List (Slot Rat)} {next slot : Slot Rat}
    (h : slot ∈ addSlot slots next) :
    slot.start = next.start ∨ ∃ held ∈ slots, slot.start = held.start := by
  cases slots with
  | nil => exact .inl (congrArg Slot.start (List.mem_singleton.mp h))
  | cons last earlier =>
    simp only [addSlot] at h
    split at h
    · rcases List.mem_cons.mp h with rfl | h
      · exact .inr ⟨last, List.mem_cons_self, rfl⟩
      · exact .inr ⟨slot, List.mem_cons_of_mem _ h, rfl⟩
    · split at h
      · rcases List.mem_cons.mp h with rfl | h
        · exact .inl rfl
        · rcases List.mem_cons.mp h with rfl | h
          · exact .inr ⟨last, List.mem_cons_self, rfl⟩
          · exact .inr ⟨slot, List.mem_cons_of_mem _ h, rfl⟩
      · rcases List.mem_cons.mp h with rfl | h
        · exact .inl rfl
        · exact .inr ⟨slot, h, rfl⟩

theorem takeTurns_foldl {single slots : List (Slot Rat)} (h : TakeTurns slots.reverse)
    (hsingle : ∀ slot ∈ single, 0 ≤ slot.start ∧ slot.start + nearness ≤ slot.stop)
    (hsorted : single.Pairwise fun a b => a.start ≤ b.start)
    (hafter : ∀ slot ∈ slots, ∀ next ∈ single, slot.start ≤ next.start) :
    TakeTurns (single.foldl addSlot slots).reverse := by
  induction single generalizing slots with
  | nil => exact h
  | cons next rest ih =>
    obtain ⟨hnext, hrest⟩ := List.forall_mem_cons.mp hsingle
    obtain ⟨hfirst, hsorted⟩ := List.pairwise_cons.mp hsorted
    have hadded := takeTurns_addSlot h hnext.1 hnext.2
      fun slot hslot => hafter slot hslot next List.mem_cons_self
    refine ih hadded hrest hsorted fun slot hslot later hlater => ?_
    rcases start_addSlot hslot with hstart | ⟨held, hheld, hstart⟩
    · rw [hstart]
      exact hfirst later hlater
    · rw [hstart]
      exact hafter held hheld later (List.mem_cons_of_mem _ hlater)

/-! ## Parts -/

theorem pairwise_sortByTime_rat {β : Type} (time : β → Rat) (items : List β) :
    (sortByTime time items).Pairwise fun a b => time a ≤ time b := pairwise_mergeSort_le time items

theorem takeTurns_slots {tempo : TempoMap Rat} (htempo : tempo.Laid) (path : String)
    {part : PlayedPart Rat} (hpart : ∀ n ∈ part.expandedNotes, 0 ≤ n.start) :
    TakeTurns (slots tempo path part).value := by
  have hmono := (TempoMap.beatAtSeconds_strictMono htempo.linked).monotone
  have hsorted : (heardNotes tempo part).Pairwise fun a b => a.start ≤ b.start :=
    (pairwise_sortByTime_rat PlayedNote.start part.expandedNotes).filter _
  rw [value_slots]
  refine takeTurns_foldl takeTurns_nil (List.forall_mem_map.mpr fun n hn => ?_) ?_ nofun
  · obtain ⟨hn, hheard⟩ := List.mem_filter.mp hn
    have hlasts : ¬tempo.beatAtSeconds n.stop - tempo.beatAtSeconds n.start < nearness := by
      simp only [isHeard, Bool.and_eq_true, Bool.not_eq_true', decide_eq_false_iff_not] at hheard
      exact hheard.1
    refine ⟨htempo.beatAtSeconds_nonneg (hpart n (List.mem_mergeSort.mp hn)), ?_⟩
    show tempo.beatAtSeconds n.start + nearness ≤ tempo.beatAtSeconds n.stop
    linarith
  · exact List.pairwise_map.mpr (hsorted.imp fun h => hmono h)

theorem mem_voiceSlots {α : Type} [Scalar α] {p : Performance α} {timeline : List (Slot α)}
    (h : timeline ∈ (voiceSlots p).value) :
    timeline = [] ∨ ∃ part ∈ p.parts, ∃ path, timeline = (slots p.tempo path part).value := by
  simp only [voiceSlots, Outcome.value_bind, Outcome.value_pure] at h
  split at h
  · exact .inl (List.mem_singleton.mp h)
  · rw [Outcome.value_collect, List.map_map] at h
    obtain ⟨⟨part, i⟩, hpart, rfl⟩ := List.mem_map.mp h
    exact .inr ⟨part, List.fst_mem_of_mem_zipIdx hpart, _, value_partSlots p i part⟩

/-! ## Performances of scores -/

theorem start_expandedNotes {part : PlayedPart Rat} (hnotes : ∀ n ∈ part.notes, 0 ≤ n.start)
    (hperiod : ∀ span period, part.repetition = .finite span period → 0 ≤ period) :
    ∀ n ∈ part.expandedNotes, 0 ≤ n.start := by
  intro n hn
  unfold PlayedPart.expandedNotes at hn
  split at hn
  · next span period hrepetition =>
    obtain ⟨pass, -, hn⟩ := List.mem_flatMap.mp hn
    obtain ⟨note, hnote, hmoved⟩ := List.mem_filterMap.mp hn
    dsimp only at hmoved
    split at hmoved
    · cases hmoved
    · cases hmoved
      have hpass : (0 : Rat) ≤ Scalar.ofInt (pass : Int) :=
        Int.cast_nonneg (Int.natCast_nonneg pass)
      exact add_nonneg (hnotes note hnote) (mul_nonneg hpass (hperiod span period hrepetition))
  · exact hnotes n hn

theorem takeTurns_voiceSlots (s : Score Rat) :
    ∀ timeline ∈ (voiceSlots (perform s)).value, TakeTurns timeline := by
  intro timeline h
  rcases mem_voiceSlots h with rfl | ⟨part, hpart, path, rfl⟩
  · exact takeTurns_nil
  · refine takeTurns_slots (laid_tempo s) path (start_expandedNotes ?_ ?_)
    · exact fun n hn => (mem_notes_perform hpart hn).1
    · intro span period hrepetition
      have hplayable := playable_repetition hpart
      rw [hrepetition] at hplayable
      linarith [hplayable.1]

end Partitura
