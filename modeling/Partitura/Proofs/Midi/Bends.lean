import Mathlib.Data.Nat.Basic
import Partitura.Proofs.Midi.Notes

/-!
# Bends and their way back to the centre

A detuned note bends its channel when it starts. Of the detuned notes of one channel that sound
into each other, only those take the bend back that stop when no other one sounds on: the last
of the longest of them is always among these, so that a channel on which no detuned note sounds
is back at the centre.
-/

namespace Partitura.Midi

variable {α : Type} [Scalar α]

/-- The value of a bend of a channel, seven bits to a byte, the low ones first. -/
def bendOf? (channel : Nat) : Bytes → Option Nat
  | [s, low, high] =>
    if s = status 0xE0 channel then some (low.toNat + 128 * high.toNat) else none
  | _ => none

/-- How a channel is bent when all events up to a tick are over, if it has been bent at all. -/
def lastBend? (channel tick : Nat) (stream : List (Nat × Bytes)) : Option Nat :=
  ((stream.filter fun e => decide (e.1 ≤ tick)).filterMap fun e => bendOf? channel e.2).getLast?

def BendSpan.Bends (s : BendSpan) (channel : Nat) : Prop := s.detuned = true ∧ s.channel = channel

/-- Bends that are taken back nowhere within another detuned note of the channel, and that leave
each channel at the centre at every tick at which no detuned note sounds there. -/
structure Rested (spans : List BendSpan) (centred : List Bool) (stream : List (Nat × Bytes)) :
    Prop where
  within : ∀ (i j : Nat) (s t : BendSpan), spans[i]? = some s → centred[i]? = some true →
    spans[j]? = some t → t.Bends s.channel → ¬ (t.start < s.stop ∧ s.stop < t.stop)
  rest : ∀ channel < 16, ∀ tick,
    (∀ s ∈ spans, s.Bends channel → ¬ (s.start ≤ tick ∧ tick < s.stop)) →
    ∀ value, lastBend? channel tick stream = some value → value = bendCentre

/-! ## Where a bend is taken back -/

def hold (held : List Nat) (s : BendSpan) : List Nat :=
  if s.detuned then held.set (s.channel % 16) (max (held.getD (s.channel % 16) 0) s.stop) else held

@[simp] theorem length_hold (held : List Nat) (s : BendSpan) :
    (hold held s).length = held.length := by
  unfold hold
  split <;> simp

theorem getElem?_recentres {spans : List BendSpan} {k : Nat} {s : BendSpan}
    (h : spans[k]? = some s) (held : List Nat) :
    (recentres held spans)[k]? = some (s.detuned
      && !decide (s.stop < ((spans.take k).foldl hold held).getD (s.channel % 16) 0)
      && !outlastedBy s (spans.drop (k + 1))) := by
  induction spans generalizing k held with
  | nil => cases h
  | cons first later ih =>
    cases k with
    | zero =>
      obtain rfl : first = s := by simpa using h
      rfl
    | succ k => exact ih (by simpa using h) (hold held first)

theorem lt_getD_foldl_hold {held : List Nat} (hlength : held.length = 16) (spans : List BendSpan)
    {slot : Nat} (hslot : slot < 16) (x : Nat) :
    x < (spans.foldl hold held).getD slot 0 ↔ x < held.getD slot 0 ∨
      ∃ t ∈ spans, t.detuned = true ∧ t.channel % 16 = slot ∧ x < t.stop := by
  induction spans generalizing held with
  | nil => simp
  | cons s later ih =>
    have hs : x < (hold held s).getD slot 0 ↔ x < held.getD slot 0 ∨
        (s.detuned = true ∧ s.channel % 16 = slot ∧ x < s.stop) := by
      unfold hold
      split
      · rename_i hdetuned
        by_cases hchannel : s.channel % 16 = slot
        · subst hchannel
          have hset : (held.set (s.channel % 16) (max (held.getD (s.channel % 16) 0) s.stop)).getD
              (s.channel % 16) 0 = max (held.getD (s.channel % 16) 0) s.stop := by
            simp [List.getD_eq_getElem?_getD, hlength, hslot]
          simp only [hset, hdetuned, true_and]
          omega
        · simp [List.getD_eq_getElem?_getD, hchannel]
      · rename_i hdetuned
        simp [hdetuned]
    rw [List.foldl_cons, ih ((length_hold held s).trans hlength), hs]
    simp [or_assoc]

theorem mem_takeWhile_start {spans : List BendSpan} {x : Nat}
    (hsorted : spans.Pairwise fun s t => s.start ≤ t.start) {t : BendSpan} :
    t ∈ spans.takeWhile (fun s => decide (s.start < x)) ↔ t ∈ spans ∧ t.start < x := by
  induction spans with
  | nil => simp
  | cons s later ih =>
    obtain ⟨hle, hsorted⟩ := List.pairwise_cons.mp hsorted
    by_cases hs : s.start < x
    · rw [List.takeWhile_cons_of_pos (by simpa using hs), List.mem_cons, ih hsorted, List.mem_cons]
      constructor
      · rintro (rfl | ⟨ht, hx⟩)
        · exact ⟨.inl rfl, hs⟩
        · exact ⟨.inr ht, hx⟩
      · rintro ⟨rfl | ht, hx⟩
        · exact .inl rfl
        · exact .inr ⟨ht, hx⟩
    · rw [List.takeWhile_cons_of_neg (by simpa using hs)]
      -- nothing starts before the first one, so nothing starts early enough
      have hlate : ∀ t ∈ s :: later, ¬ t.start < x := by
        intro t ht
        rcases List.mem_cons.mp ht with rfl | ht
        · exact hs
        · have := hle t ht
          omega
      simpa using fun ht => Nat.le_of_not_lt (hlate t ht)

theorem outlastedBy_iff {later : List BendSpan}
    (hsorted : later.Pairwise fun s t => s.start ≤ t.start) (s : BendSpan) :
    outlastedBy s later = true ↔
      ∃ t ∈ later, t.Bends s.channel ∧ t.start < s.stop ∧ s.stop < t.stop := by
  simp only [outlastedBy, List.any_eq_true, mem_takeWhile_start hsorted, Bool.and_eq_true,
    beq_iff_eq, decide_eq_true_eq, BendSpan.Bends]
  constructor
  · rintro ⟨t, ⟨ht, hstart⟩, hbends, hstop⟩
    exact ⟨t, ht, hbends, hstart, hstop⟩
  · rintro ⟨t, ht, hbends, hstart, hstop⟩
    exact ⟨t, ⟨ht, hstart⟩, hbends, hstop⟩

section Spans

variable {spans : List BendSpan} (hsorted : spans.Pairwise fun s t => s.start ≤ t.start)
  (hchannels : ∀ s ∈ spans, s.channel < 16)

include hsorted hchannels

/-- A note takes the bend back if it is detuned and no detuned note of its channel sounds longer,
of those that start before it or before it stops. -/
theorem centred_iff {k : Nat} {s : BendSpan} (h : spans[k]? = some s) :
    (recentres (List.replicate 16 0) spans)[k]? = some true ↔ s.detuned = true ∧
      ∀ j t, spans[j]? = some t → t.Bends s.channel → j < k ∨ k < j ∧ t.start < s.stop →
        t.stop ≤ s.stop := by
  have hmem : s ∈ spans := List.mem_of_getElem? h
  have hearlier : s.stop < ((spans.take k).foldl hold (List.replicate 16 0)).getD
      (s.channel % 16) 0 ↔ ∃ j t, j < k ∧ spans[j]? = some t ∧ t.Bends s.channel ∧
        s.stop < t.stop := by
    rw [lt_getD_foldl_hold rfl _ (Nat.mod_lt _ (by decide))]
    have hzero : (List.replicate 16 0).getD (s.channel % 16) 0 = 0 := by
      rw [List.getD_eq_getElem?_getD, List.getElem?_replicate]
      split <;> rfl
    rw [hzero]
    constructor
    · rintro (hlt | ⟨t, ht, hdetuned, hslot, hlt⟩)
      · omega
      · obtain ⟨j, hj⟩ := List.mem_iff_getElem?.mp ht
        rw [List.getElem?_take] at hj
        split at hj
        · rename_i hjk
          have htmem := hchannels t (List.mem_of_getElem? hj)
          have hsmem := hchannels s hmem
          exact ⟨j, t, hjk, hj, ⟨hdetuned, by omega⟩, hlt⟩
        · cases hj
    · rintro ⟨j, t, hjk, hj, ⟨hdetuned, hchannel⟩, hlt⟩
      refine .inr ⟨t, ?_, hdetuned, by rw [hchannel], hlt⟩
      exact List.mem_iff_getElem?.mpr ⟨j, by rw [List.getElem?_take, if_pos hjk, hj]⟩
  have hlater : outlastedBy s (spans.drop (k + 1)) = true ↔ ∃ j t, k < j ∧ spans[j]? = some t ∧
      t.Bends s.channel ∧ t.start < s.stop ∧ s.stop < t.stop := by
    rw [outlastedBy_iff (hsorted.sublist (List.drop_sublist _ _))]
    constructor
    · rintro ⟨t, ht, hbends⟩
      obtain ⟨j, hj⟩ := List.mem_iff_getElem?.mp ht
      rw [List.getElem?_drop] at hj
      exact ⟨k + 1 + j, t, by omega, hj, hbends⟩
    · rintro ⟨j, t, hjk, hj, hbends⟩
      refine ⟨t, List.mem_iff_getElem?.mpr ⟨j - (k + 1), ?_⟩, hbends⟩
      rw [List.getElem?_drop, show k + 1 + (j - (k + 1)) = j by omega, hj]
  rw [getElem?_recentres h, Option.some.injEq, Bool.and_eq_true, Bool.and_eq_true,
    Bool.not_eq_true', decide_eq_false_iff_not, Bool.not_eq_true', ← Bool.not_eq_true, hearlier,
    hlater, and_assoc]
  refine and_congr_right fun _ => ⟨?_, ?_⟩
  · rintro ⟨hearly, hlate⟩ j t ht hbends (hj | ⟨hj, hstart⟩)
    · exact Nat.le_of_not_lt fun hlt => hearly ⟨j, t, hj, ht, hbends, hlt⟩
    · exact Nat.le_of_not_lt fun hlt => hlate ⟨j, t, hj, ht, hbends, hstart, hlt⟩
  · refine fun hall => ⟨?_, ?_⟩
    · rintro ⟨j, t, hj, ht, hbends, hlt⟩
      exact Nat.not_lt.mpr (hall j t ht hbends (.inl hj)) hlt
    · rintro ⟨j, t, hj, ht, hbends, hstart, hlt⟩
      exact Nat.not_lt.mpr (hall j t ht hbends (.inr ⟨hj, hstart⟩)) hlt

end Spans

/-! ## The events that bend a channel -/

theorem bendOf?_message {channel : Nat} {m : Message} (own : Nat) {value : Nat}
    (h : bendOf? channel (m.bytes own) = some value) :
    ∃ amount, m = .bend amount ∧ own % 16 = channel % 16 := by
  have hother (kind : Nat) (hkind : kind < 14) (a b : UInt8)
      (h : bendOf? channel [status (16 * kind) own, a, b] = some value) : False := by
    have hstatus : status (16 * kind) own = status 0xE0 channel := by
      by_contra hne
      simp [bendOf?, hne] at h
    have htoNat := congrArg UInt8.toNat hstatus
    rw [toNat_status (by omega), toNat_status (by decide)] at htoNat
    omega
  cases m with
  | noteOn pitch velocity => exact (hother 9 (by decide) _ _ h).elim
  | noteOff pitch => exact (hother 8 (by decide) _ _ h).elim
  | control controller value => exact (hother 11 (by decide) _ _ h).elim
  | program number => cases h
  | pressure value => cases h
  | bend amount =>
    have hstatus : status 0xE0 own = status 0xE0 channel := by
      by_contra hne
      simp [bendOf?, Message.bytes, hne] at h
    have htoNat := congrArg UInt8.toNat hstatus
    rw [toNat_status (by decide), toNat_status (by decide)] at htoNat
    exact ⟨amount, rfl, by omega⟩

theorem bendOf?_markBytes (channel code : Nat) (data : Bytes) :
    bendOf? channel (markBytes code data) = none := by
  have hstatus : (0xFF : UInt8) ≠ status 0xE0 channel := by
    intro h
    have htoNat := congrArg UInt8.toNat h
    rw [toNat_status (by decide)] at htoNat
    have h255 : (0xFF : UInt8).toNat = 255 := rfl
    omega
  unfold markBytes
  rw [List.append_assoc]
  generalize quantity (data.length % 4294967296) ++ data = rest
  rcases rest with _ | ⟨high, _ | ⟨next, rest⟩⟩
  · rfl
  · simp [bendOf?, hstatus]
  · rfl

theorem bendOf?_centre (channel : Nat) :
    bendOf? channel ((Message.bend bendCentre).bytes channel) = some bendCentre := by
  simp [bendOf?, Message.bytes, bendCentre, sevenBits]

def bendsUntil (channel tick : Nat) (e : TimedEvent) : Bool :=
  decide (e.tick ≤ tick) && (bendOf? channel e.event.bytes).isSome

section Events

variable {settings : Settings} {clock : Clock α} {path : String} {channel own : Nat}

theorem bends_of_noteGroup {n : PlayedNote α} {centred : Bool} (hc : own < 16)
    (hchannel : n.channel.getD channel < 16) (hplain : ∀ m ∈ n.modulations, m.kind ≠ .pitchBend)
    (hcentred : centred = true → (detuning? n).isSome) {e : TimedEvent} {value : Nat}
    (he : e ∈ noteGroup settings clock path channel n centred)
    (hbend : bendOf? own e.event.bytes = some value) :
    (bendSpan clock channel n).Bends own ∧
      (e.tick = (bendSpan clock channel n).start ∨ e.tick = (bendSpan clock channel n).stop) := by
  have hown {message : Message} {tick : Nat}
      (hsend : e = .send tick (n.channel.getD channel) message) :
      ∃ amount, message = .bend amount ∧ n.channel.getD channel = own := by
    subst hsend
    obtain ⟨amount, hmessage, hmod⟩ := bendOf?_message _ hbend
    exact ⟨amount, hmessage, by omega⟩
  simp only [noteGroup, value_noteEvents, List.mem_append] at he
  rcases he with (((he | he) | he) | he) | he
  · simp only [bendEvents, Option.mem_toList, Option.map_eq_some_iff] at he
    obtain ⟨cents, hcents, hsend⟩ := he
    obtain ⟨_, -, hchannel⟩ := hown hsend.symm
    exact ⟨⟨by simp [bendSpan, hcents], hchannel⟩, .inl (by rw [← hsend]; rfl)⟩
  · obtain ⟨p, -, hsend⟩ := List.mem_map.mp he
    obtain ⟨_, hmessage, -⟩ := hown hsend.symm
    cases hmessage
  · obtain ⟨m, hm, he⟩ := List.mem_flatMap.mp he
    unfold modulationEvents at he
    dsimp only at he
    split at he
    · obtain ⟨_, hmessage, -⟩ := hown (List.mem_singleton.mp he)
      cases hmessage
    · cases he
    · rename_i hkind
      exact absurd hkind (hplain m hm)
    · obtain ⟨_, hmessage, -⟩ := hown (List.mem_singleton.mp he)
      cases hmessage
    · cases he
  · obtain ⟨p, -, hsend⟩ := List.mem_map.mp he
    obtain ⟨_, hmessage, -⟩ := hown hsend.symm
    cases hmessage
  · cases centred with
    | false => cases he
    | true =>
      have hsend := mem_recentreEvent he
      obtain ⟨_, -, hchannel⟩ := hown hsend
      exact ⟨⟨hcentred rfl, hchannel⟩, .inr (by rw [hsend]; rfl)⟩

end Events

theorem lastBend?_written (channel tick : Nat) (events : List TimedEvent) :
    lastBend? channel tick (written events) =
      (((events.mergeSort fun a b => decide (a.tick ≤ b.tick)).filter
        (bendsUntil channel tick)).filterMap fun e => bendOf? channel e.event.bytes).getLast? := by
  have hsort : written events = (events.mergeSort fun a b => decide (a.tick ≤ b.tick)).map
      fun e => (e.tick, e.event.bytes) := by
    refine Eq.symm ?_
    exact List.map_mergeSort fun a _ b _ => rfl
  rw [lastBend?, hsort, List.filter_map, List.filterMap_map, List.filterMap_filter,
    List.filterMap_filter]
  refine congrArg List.getLast? (List.filterMap_congr fun e _ => ?_)
  by_cases htick : e.tick ≤ tick
  · cases hbend : bendOf? channel e.event.bytes <;> simp [bendsUntil, htick, hbend]
  · simp [bendsUntil, htick]

def BendSpan.Begun (s : BendSpan) (channel tick : Nat) : Prop :=
  s.Bends channel ∧ s.start ≤ tick

section Part

variable (settings : Settings) (clock : Clock α) (perf : Performance α) (i : Nat)
  (part : PlayedPart α) (channel : Nat)

theorem bendsUntil_eq_false {own tick : Nat} {e : TimedEvent}
    (he : e ∈ openingEvents i part channel ∨ e ∈ automationEvents settings clock perf part channel) :
    bendsUntil own tick e = false := by
  have hsend {message : Message} {sent : Nat} (hbend : ∀ amount, message ≠ .bend amount) :
      bendOf? own (TimedEvent.send sent channel message).event.bytes = none := by
    refine Option.eq_none_iff_forall_ne_some.mpr fun value h => ?_
    obtain ⟨amount, hmessage, -⟩ := bendOf?_message _ h
    exact hbend amount hmessage
  have hnone : bendOf? own e.event.bytes = none := by
    rcases he with he | he
    · rcases List.mem_cons.mp he with rfl | he
      · exact bendOf?_markBytes own _ _
      · rw [List.mem_singleton.mp he]
        exact hsend nofun
    · obtain ⟨a, -, he⟩ := List.mem_flatMap.mp he
      unfold automationEvent at he
      split at he
      · rw [List.mem_singleton.mp he]
        exact hsend nofun
      · cases he
  simp [bendsUntil, hnone]

abbrev flaggedNotes : List (PlayedNote α × Bool) :=
  (orderedNotes part).zip (recentred clock channel part)

abbrev flaggedGroup (x : PlayedNote α × Bool) : List TimedEvent :=
  noteGroup settings clock (entryPath "sequences" i) channel x.1 x.2

theorem partEvents_flagged : (partEvents settings clock perf i part channel).value =
    openingEvents i part channel
      ++ (flaggedNotes clock part channel).flatMap (flaggedGroup settings clock i channel)
      ++ automationEvents settings clock perf part channel :=
  value_partEvents settings clock perf i part channel

variable (hsorted : ((orderedNotes part).map (bendSpan clock channel)).Pairwise
    fun s t => s.start ≤ t.start)
  (hchannels : ∀ n ∈ orderedNotes part, n.channel.getD channel < 16)

include hsorted hchannels

theorem recentred_iff {k : Nat} {s : BendSpan}
    (h : ((orderedNotes part).map (bendSpan clock channel))[k]? = some s) :
    (recentred clock channel part)[k]? = some true ↔ s.detuned = true ∧
      ∀ j t, ((orderedNotes part).map (bendSpan clock channel))[j]? = some t →
        t.Bends s.channel → j < k ∨ k < j ∧ t.start < s.stop → t.stop ≤ s.stop := by
  refine centred_iff hsorted (fun s hs => ?_) h
  obtain ⟨n, hn, rfl⟩ := List.mem_map.mp hs
  exact hchannels n hn

theorem centred_of_greatest {own tick : Nat}
    (hquiet : ∀ s ∈ (orderedNotes part).map (bendSpan clock channel), s.Bends own →
      ¬ (s.start ≤ tick ∧ tick < s.stop))
    {x : PlayedNote α × Bool} (hmem : x ∈ flaggedNotes clock part channel)
    (hx : (bendSpan clock channel x.1).Begun own tick)
    (hgreatest : ∀ y ∈ flaggedNotes clock part channel, (bendSpan clock channel y.1).Begun own tick →
      (bendSpan clock channel y.1).stop ≤ (bendSpan clock channel x.1).stop) :
    x.2 = true := by
  obtain ⟨k, hk⟩ := List.mem_iff_getElem?.mp hmem
  obtain ⟨hnote, hflag⟩ := List.getElem?_zip_eq_some.mp hk
  have hspan : ((orderedNotes part).map (bendSpan clock channel))[k]? =
      some (bendSpan clock channel x.1) := by
    rw [List.getElem?_map, hnote, Option.map_some]
  have hover : (bendSpan clock channel x.1).stop ≤ tick := by
    have hnot := hquiet _ (List.mem_of_getElem? hspan) hx.1
    have hstart := hx.2
    omega
  have htrue := (recentred_iff clock part channel hsorted hchannels hspan).mpr
    ⟨hx.1.1, fun j t ht hbends hj => ?_⟩
  · rw [hflag] at htrue
    exact Option.some.inj htrue
  · have hstart : t.start ≤ tick := by
      rcases hj with hj | ⟨-, hj⟩
      · obtain ⟨hjlt, rfl⟩ := List.getElem?_eq_some_iff.mp ht
        obtain ⟨hklt, hspan⟩ := List.getElem?_eq_some_iff.mp hspan
        have hle := List.pairwise_iff_getElem.mp hsorted j k hjlt hklt hj
        rw [hspan] at hle
        exact Nat.le_trans hle hx.2
      · omega
    have hfst : (flaggedNotes clock part channel).map Prod.fst = orderedNotes part :=
      List.map_fst_zip (by simp)
    obtain ⟨n, hn, rfl⟩ := List.mem_map.mp (List.mem_of_getElem? ht)
    obtain ⟨y, hy, rfl⟩ := List.mem_map.mp (hfst.symm ▸ hn)
    exact hgreatest y hy ⟨⟨hbends.1, hbends.2.trans hx.1.2⟩, hstart⟩

variable (hplain : ∀ n ∈ orderedNotes part, ∀ m ∈ n.modulations, m.kind ≠ .pitchBend)

include hplain

theorem begun_of_bends {own tick : Nat} (hc : own < 16) {x : PlayedNote α × Bool}
    (hx : x ∈ flaggedNotes clock part channel) {e : TimedEvent}
    (he : e ∈ flaggedGroup settings clock i channel x) (hbends : bendsUntil own tick e = true) :
    (bendSpan clock channel x.1).Begun own tick ∧ e.tick ≤ (bendSpan clock channel x.1).stop := by
  obtain ⟨k, hk⟩ := List.mem_iff_getElem?.mp hx
  obtain ⟨hnote, hflag⟩ := List.getElem?_zip_eq_some.mp hk
  have hmem := List.mem_of_getElem? hnote
  have hspan : ((orderedNotes part).map (bendSpan clock channel))[k]? =
      some (bendSpan clock channel x.1) := by
    rw [List.getElem?_map, hnote, Option.map_some]
  have hdetuned (htrue : x.2 = true) : (detuning? x.1).isSome :=
    ((recentred_iff clock part channel hsorted hchannels hspan).mp (htrue ▸ hflag)).1
  obtain ⟨htick, hbend⟩ := Bool.and_eq_true_iff.mp hbends
  obtain ⟨amount, hamount⟩ := Option.isSome_iff_exists.mp hbend
  obtain ⟨hown, hplace⟩ :=
    bends_of_noteGroup hc (hchannels _ hmem) (hplain _ hmem) hdetuned he hamount
  have hle : (bendSpan clock channel x.1).start ≤ (bendSpan clock channel x.1).stop :=
    start_le_stop clock x.1
  have htick := of_decide_eq_true htick
  exact ⟨⟨hown, by omega⟩, by omega⟩

/-- Where the longest of the notes that have started is over, its reset is the last bend. -/
theorem getLast?_bends {own tick : Nat} (hc : own < 16) {x : PlayedNote α × Bool}
    {before after : List (PlayedNote α × Bool)}
    (hsplit : flaggedNotes clock part channel = before ++ x :: after) (hcentred : x.2 = true)
    (hx : (bendSpan clock channel x.1).Bends own) (hover : (bendSpan clock channel x.1).stop ≤ tick)
    (hbefore : ∀ y ∈ before, (bendSpan clock channel y.1).Begun own tick →
      (bendSpan clock channel y.1).stop ≤ (bendSpan clock channel x.1).stop)
    (hafter : ∀ y ∈ after, (bendSpan clock channel y.1).Begun own tick →
      (bendSpan clock channel y.1).stop < (bendSpan clock channel x.1).stop) :
    (((partEvents settings clock perf i part channel).value.mergeSort
      fun a b => decide (a.tick ≤ b.tick)).filter (bendsUntil own tick)).getLast? =
      some (.send (bendSpan clock channel x.1).stop own (.bend bendCentre)) := by
  have hmem {y : PlayedNote α × Bool} (hy : y ∈ before ++ x :: after) :
      y ∈ flaggedNotes clock part channel := hsplit ▸ hy
  have hgroup : flaggedGroup settings clock i channel x =
      (noteEvents settings clock (entryPath "sequences" i) channel x.1).value
        ++ [.send (bendSpan clock channel x.1).stop own (.bend bendCentre)] := by
    rw [flaggedGroup, noteGroup, hcentred, recentreEvent, if_pos rfl, hx.2]
  have hevents : (partEvents settings clock perf i part channel).value =
      (openingEvents i part channel ++ before.flatMap (flaggedGroup settings clock i channel)
        ++ (noteEvents settings clock (entryPath "sequences" i) channel x.1).value)
      ++ .send (bendSpan clock channel x.1).stop own (.bend bendCentre)
        :: (after.flatMap (flaggedGroup settings clock i channel)
          ++ automationEvents settings clock perf part channel) := by
    rw [partEvents_flagged, hsplit, List.flatMap_append, List.flatMap_cons, hgroup]
    simp only [List.append_assoc, List.cons_append, List.nil_append]
  rw [hevents]
  refine getLast?_filter_mergeSort (fun a b c hab hbc => ?_) (fun a b => ?_) ?_
    (fun e he hbends => ?_) (fun e he hbends => ?_)
  · exact decide_eq_true (Nat.le_trans (of_decide_eq_true hab) (of_decide_eq_true hbc))
  · simpa using Nat.le_total a.tick b.tick
  · have hreset := bendOf?_centre own
    exact Bool.and_eq_true_iff.mpr ⟨decide_eq_true hover, Option.isSome_of_eq_some hreset⟩
  · refine decide_eq_true ?_
    rw [List.mem_append, List.mem_append] at he
    rcases he with (he | he) | he
    · simp [bendsUntil_eq_false settings clock perf i part channel (.inl he)] at hbends
    · obtain ⟨y, hy, he⟩ := List.mem_flatMap.mp he
      obtain ⟨hbegun, hle⟩ := begun_of_bends settings clock i part channel hsorted hchannels hplain
        hc (hmem (List.mem_append_left _ hy)) he hbends
      exact Nat.le_trans hle (hbefore y hy hbegun)
    · have hown : e ∈ flaggedGroup settings clock i channel x := List.mem_append_left _ he
      exact (begun_of_bends settings clock i part channel hsorted hchannels hplain hc
        (hmem (by simp)) hown hbends).2
  · refine decide_eq_false (Nat.not_le.mpr ?_)
    rcases List.mem_append.mp he with he | he
    · obtain ⟨y, hy, he⟩ := List.mem_flatMap.mp he
      obtain ⟨hbegun, hle⟩ := begun_of_bends settings clock i part channel hsorted hchannels hplain
        hc (hmem (by simp [hy])) he hbends
      exact Nat.lt_of_le_of_lt hle (hafter y hy hbegun)
    · simp [bendsUntil_eq_false settings clock perf i part channel (.inr he)] at hbends

theorem lastBend?_quiet {own tick : Nat} (hc : own < 16)
    (hquiet : ∀ s ∈ (orderedNotes part).map (bendSpan clock channel), s.Bends own →
      ¬ (s.start ≤ tick ∧ tick < s.stop)) {value : Nat}
    (hlast : lastBend? own tick
      (written (partEvents settings clock perf i part channel).value) = some value) :
    value = bendCentre := by
  rw [lastBend?_written] at hlast
  -- something has bent the channel, so a detuned note has started there
  have hbegun : ∃ x ∈ flaggedNotes clock part channel,
      (bendSpan clock channel x.1).Begun own tick := by
    obtain ⟨e, he, -⟩ := List.mem_filterMap.mp (List.mem_of_getLast? hlast)
    obtain ⟨he, hbends⟩ := List.mem_filter.mp he
    rw [List.mem_mergeSort, partEvents_flagged, List.mem_append, List.mem_append] at he
    rcases he with (he | he) | he
    · simp [bendsUntil_eq_false settings clock perf i part channel (.inl he)] at hbends
    · obtain ⟨x, hx, he⟩ := List.mem_flatMap.mp he
      exact ⟨x, hx, (begun_of_bends settings clock i part channel hsorted hchannels hplain hc hx he
        hbends).1⟩
    · simp [bendsUntil_eq_false settings clock perf i part channel (.inr he)] at hbends
  obtain ⟨before, x, after, hsplit, hx, hbefore, hafter⟩ :=
    exists_last_greatest (fun x => (bendSpan clock channel x.1).stop) _ hbegun
  have hmem : x ∈ flaggedNotes clock part channel := by simp [hsplit]
  have hcentred : x.2 = true := by
    refine centred_of_greatest clock part channel hsorted hchannels hquiet hmem hx fun y hy hys => ?_
    rw [hsplit] at hy
    rcases List.mem_append.mp hy with hy | hy
    · exact hbefore y hy hys
    · rcases List.mem_cons.mp hy with rfl | hy
      · exact Nat.le_refl _
      · exact Nat.le_of_lt (hafter y hy hys)
  have hover : (bendSpan clock channel x.1).stop ≤ tick := by
    have hnot := hquiet _ (List.mem_map_of_mem (List.of_mem_zip hmem).1) hx.1
    have hstart := hx.2
    omega
  obtain ⟨earlier, hlatest⟩ := List.getLast?_eq_some_iff.mp
    (getLast?_bends settings clock perf i part channel hsorted hchannels hplain hc hsplit hcentred
      hx.1 hover hbefore hafter)
  have hreset : bendOf? own (TimedEvent.send (bendSpan clock channel x.1).stop own
      (.bend bendCentre)).event.bytes = some bendCentre := bendOf?_centre own
  rw [hlatest, List.filterMap_append, List.filterMap_cons, hreset, List.filterMap_nil,
    List.getLast?_concat] at hlast
  exact (Option.some.inj hlast).symm

/-- The bends that the notes of a part send are taken back so that no detuned note loses its own
and no channel is left bent: note by note, a reset follows the events of a note, and the stream
of the track is right at every tick. -/
theorem rested_partEvents :
    (partEvents settings clock perf i part channel).value = openingEvents i part channel
      ++ ((orderedNotes part).zip (recentred clock channel part)).flatMap
        (fun x => noteGroup settings clock (entryPath "sequences" i) channel x.1 x.2)
      ++ automationEvents settings clock perf part channel ∧
    Rested ((orderedNotes part).map (bendSpan clock channel)) (recentred clock channel part)
      (written (partEvents settings clock perf i part channel).value) := by
  refine ⟨value_partEvents settings clock perf i part channel, fun j k s t hs hj ht hbends => ?_,
    fun own hc tick hquiet value hlast => ?_⟩
  · have hkept :=
      ((recentred_iff clock part channel hsorted hchannels hs).mp hj).2 k t ht hbends
    rintro ⟨hstart, hstop⟩
    rcases Nat.lt_trichotomy k j with hkj | rfl | hjk
    · exact Nat.not_lt.mpr (hkept (.inl hkj)) hstop
    · obtain rfl := Option.some.inj (hs.symm.trans ht)
      exact Nat.lt_irrefl _ hstop
    · exact Nat.not_lt.mpr (hkept (.inr ⟨hjk, hstart⟩)) hstop
  · exact lastBend?_quiet settings clock perf i part channel hsorted hchannels hplain hc hquiet hlast

end Part

/-- Two notes that sound into each other share one reset; one of no length takes its own back. -/
theorem rested_partEvents_duet :
    let long : PlayedNote Rat := ⟨0, [.midi 60], 0, 2, 1, none, some 30, none, []⟩
    let short : PlayedNote Rat := ⟨1, [.midi 64], 1, 1/2, 1, none, some (-30), none, []⟩
    let grace : PlayedNote Rat := ⟨2, [.midi 67], 3, 0, 1, none, some 20, none, []⟩
    let lead : PlayedPart Rat :=
      ⟨"lead", ⟨none, .synth, []⟩, [], [long, short, grace], .once, some 5⟩
    let song : Performance Rat := ⟨formatName, formatVersion, 120, .common, none, .constant 120,
      [], [], ⟨none, none, none⟩, [], [], [lead], [], [], []⟩
    let clock : Clock Rat := ⟨song.tempo, 480⟩
    ((orderedNotes lead).map (bendSpan clock 5)).Pairwise (fun s t => s.start ≤ t.start) ∧
    (∀ n ∈ orderedNotes lead, n.channel.getD 5 < 16) ∧
    (∀ n ∈ orderedNotes lead, ∀ m ∈ n.modulations, m.kind ≠ .pitchBend) ∧
    recentred clock 5 lead = [true, false, true] ∧
    (partEvents .standard clock song 0 lead 5).value = openingEvents 0 lead 5
      ++ ((orderedNotes lead).zip (recentred clock 5 lead)).flatMap
        (fun x => noteGroup .standard clock (entryPath "sequences" 0) 5 x.1 x.2)
      ++ automationEvents .standard clock song lead 5 ∧
    Rested ((orderedNotes lead).map (bendSpan clock 5)) (recentred clock 5 lead)
      (written (partEvents .standard clock song 0 lead 5).value) := by
  intro long short grace lead song clock
  have hnotes : orderedNotes lead = [long, short, grace] :=
    List.mergeSort_of_pairwise (by decide +kernel)
  have hsorted : ((orderedNotes lead).map (bendSpan clock 5)).Pairwise
      (fun s t => s.start ≤ t.start) := by
    rw [hnotes]
    decide +kernel
  have hchannels : ∀ n ∈ orderedNotes lead, n.channel.getD 5 < 16 := by
    rw [hnotes]
    decide
  have hplain : ∀ n ∈ orderedNotes lead, ∀ m ∈ n.modulations, m.kind ≠ .pitchBend := by
    rw [hnotes]
    decide
  have hcentred : recentred clock 5 lead = [true, false, true] := by
    rw [recentred, hnotes]
    decide +kernel
  exact ⟨hsorted, hchannels, hplain, hcentred,
    rested_partEvents .standard clock song 0 lead 5 hsorted hchannels hplain⟩

end Partitura.Midi
