import Partitura.Proofs.Midi.Part
import Partitura.Proofs.Midi.ReadBack
import Partitura.Proofs.Music.Pitch
import Partitura.Proofs.Numbered
import Partitura.Proofs.StableSort

/-!
# Which note a message belongs to

Two messages of a track can look the same and belong to different notes, so each
is labelled with its note when it is put in. The labels are carried through the
sort by ticks: what was in order already when it was put in is not moved against
itself, and that is so for the messages of one note, and for those of two notes
of which the second starts when the first has stopped.
-/

namespace Partitura.Midi

variable {α : Type} [Scalar α]

/-! ## Messages on the wire -/

/-- The pitch that is written for one that may be unplayable: a byte has room for
seven bits of the pitch that takes its place. -/
def writtenPitch (settings : Settings) (p : PitchValue) : Nat :=
  p.midi?.getD (settings.defaultPitch % 128)

def noteOns (settings : Settings) (clock : Clock α) (channel : Nat) (n : PlayedNote α) :
    List (Nat × Bytes) :=
  n.pitches.map fun p => ((noteTicks clock n).1, [status 0x90 (n.channel.getD channel),
    UInt8.ofNat (writtenPitch settings p), UInt8.ofNat (noteVelocity n.velocity)])

def noteOffs (settings : Settings) (clock : Clock α) (channel : Nat) (n : PlayedNote α) :
    List (Nat × Bytes) :=
  n.pitches.map fun p => ((noteTicks clock n).2, [status 0x80 (n.channel.getD channel),
    UInt8.ofNat (writtenPitch settings p), 0])

/-- Ticks and bytes of the events of a track in the order in which they are written. -/
def written (events : List TimedEvent) : List (Nat × Bytes) :=
  inOrder (events.map fun e => (e.tick, e.event.bytes))

def isNote : Bytes → Bool
  | status :: _ => status.toNat / 16 == 8 || status.toNat / 16 == 9
  | [] => false

/-! ## Labels -/

/-- What a message is to the notes of a part, which are counted in the order of their starts. -/
inductive Label where
  | on (note : Nat)
  | off (note : Nat)
  | other
deriving DecidableEq, Repr

def Label.note? : Label → Option Nat
  | on k => some k
  | off k => some k
  | other => none

/-- A track whose messages are labelled: each note is switched on and then off, each of its
pitches once, and no message of another kind switches a note. Where a note has stopped when a
later one starts, it is switched off before that one is switched on. -/
structure Attributed (settings : Settings) (clock : Clock α) (channel : Nat)
    (notes : List (PlayedNote α)) (labelled : List (Label × Nat × Bytes)) : Prop where
  each : ∀ k n, notes[k]? = some n → labelled.filter (fun e => e.1.note? == some k) =
    (noteOns settings clock channel n).map (.on k, ·)
      ++ (noteOffs settings clock channel n).map (.off k, ·)
  inTurn : ∀ k l n m, k < l → notes[k]? = some n → notes[l]? = some m →
    (noteTicks clock n).2 ≤ (noteTicks clock m).1 →
    labelled.filter (fun e => e.1 == .off k || e.1 == .on l) =
      (noteOffs settings clock channel n).map (.off k, ·)
        ++ (noteOns settings clock channel m).map (.on l, ·)
  known : ∀ e ∈ labelled, ∀ k, e.1.note? = some k → k < notes.length
  others : ∀ e ∈ labelled, e.1 = .other → isNote e.2.2 = false

/-! ## What is put in -/

abbrev LabelledEvent := Label × TimedEvent

def labelAll (label : Label) (events : List TimedEvent) : List LabelledEvent :=
  events.map fun e => (label, e)

def switches (settings : Settings) (clock : Clock α) (channel : Nat) (p : Label → Bool) (k : Nat)
    (n : PlayedNote α) : List LabelledEvent :=
  (if p (.on k) then labelAll (.on k) (onEvents settings clock channel n) else [])
    ++ if p (.off k) then labelAll (.off k) (offEvents settings clock channel n) else []

def labelledGroup (settings : Settings) (clock : Clock α) (path : String) (channel k : Nat)
    (n : PlayedNote α) (centred : Bool) : List LabelledEvent :=
  labelAll .other (bendEvents clock channel n)
    ++ labelAll (.on k) (onEvents settings clock channel n)
    ++ labelAll .other
      (changeEvents clock (path ++ "." ++ entryPath "notes" n.index ++ ".modulations") channel n)
    ++ labelAll (.off k) (offEvents settings clock channel n)
    ++ labelAll .other (recentreEvent (bendSpan clock channel n) centred)

def labelledEvents (settings : Settings) (clock : Clock α) (perf : Performance α) (i : Nat)
    (p : PlayedPart α) (channel : Nat) : List LabelledEvent :=
  labelAll .other (openingEvents i p channel)
    ++ ((orderedNotes p).zip (recentred clock channel p)).zipIdx.flatMap
      (fun x => labelledGroup settings clock (entryPath "sequences" i) channel x.2 x.1.1 x.1.2)
    ++ labelAll .other (automationEvents settings clock perf p channel)

@[simp] theorem map_snd_labelAll (label : Label) (events : List TimedEvent) :
    (labelAll label events).map Prod.snd = events := by
  simp [labelAll, Function.comp_def]

theorem filter_labelAll (p : Label → Bool) (label : Label) (events : List TimedEvent) :
    (labelAll label events).filter (fun e => p e.1) =
      if p label then labelAll label events else [] := by
  by_cases h : p label = true <;> simp [labelAll, List.filter_map, Function.comp_def, h]

theorem map_snd_labelledGroup (settings : Settings) (clock : Clock α) (path : String)
    (channel k : Nat) (n : PlayedNote α) (centred : Bool) :
    (labelledGroup settings clock path channel k n centred).map Prod.snd =
      noteGroup settings clock path channel n centred := by
  simp [labelledGroup, noteGroup, value_noteEvents]

theorem map_snd_labelledEvents (settings : Settings) (clock : Clock α) (perf : Performance α)
    (i : Nat) (p : PlayedPart α) (channel : Nat) :
    (labelledEvents settings clock perf i p channel).map Prod.snd =
      (partEvents settings clock perf i p channel).value := by
  simp only [labelledEvents, value_partEvents, List.map_append, map_snd_labelAll,
    List.map_flatMap, map_snd_labelledGroup]
  rw [flatMap_zipIdx_fst fun x : PlayedNote α × Bool =>
    noteGroup settings clock (entryPath "sequences" i) channel x.1 x.2]

theorem filter_labelledGroup {p : Label → Bool} (hp : p .other = false) (settings : Settings)
    (clock : Clock α) (path : String) (channel k : Nat) (n : PlayedNote α) (centred : Bool) :
    (labelledGroup settings clock path channel k n centred).filter (fun e => p e.1) =
      switches settings clock channel p k n := by
  simp [labelledGroup, switches, filter_labelAll, hp]

/-- Which bends are taken back makes no difference to the messages that switch notes. -/
theorem filter_labelledEvents {p : Label → Bool} (hp : p .other = false) (settings : Settings)
    (clock : Clock α) (perf : Performance α) (i : Nat) (part : PlayedPart α) (channel : Nat) :
    (labelledEvents settings clock perf i part channel).filter (fun e => p e.1) =
      (orderedNotes part).zipIdx.flatMap fun x => switches settings clock channel p x.2 x.1 := by
  have hnotes := zipIdx_eq_map_zip (length_recentred clock channel part).symm
  simp only [labelledEvents, List.filter_append, filter_labelAll, hp, List.filter_flatMap,
    filter_labelledGroup hp]
  rw [hnotes, List.flatMap_map]
  simp

/-! ## What is written -/

def byTick (a b : LabelledEvent) : Bool := decide (a.2.tick ≤ b.2.tick)

def LabelledEvent.written (e : LabelledEvent) : Label × Nat × Bytes :=
  (e.1, e.2.tick, e.2.event.bytes)

def labelledStream (settings : Settings) (clock : Clock α) (perf : Performance α) (i : Nat)
    (p : PlayedPart α) (channel : Nat) : List (Label × Nat × Bytes) :=
  ((labelledEvents settings clock perf i p channel).mergeSort byTick).map LabelledEvent.written

theorem map_snd_labelledStream (settings : Settings) (clock : Clock α) (perf : Performance α)
    (i : Nat) (p : PlayedPart α) (channel : Nat) :
    (labelledStream settings clock perf i p channel).map Prod.snd =
      written (partEvents settings clock perf i p channel).value := by
  rw [labelledStream, written, ← map_snd_labelledEvents, inOrder, List.map_map, List.map_map]
  exact List.map_mergeSort fun a _ b _ => rfl

theorem filter_mergeSort_byTick {p : Label → Bool} {events kept : List LabelledEvent}
    (h : events.filter (fun e => p e.1) = kept)
    (hsorted : kept.Pairwise fun a b => byTick a b = true) :
    (events.mergeSort byTick).filter (fun e => p e.1) = kept := by
  subst h
  refine filter_mergeSort (fun a b c hab hbc => ?_) (fun a b => ?_) hsorted
  · exact decide_eq_true (Nat.le_trans (of_decide_eq_true hab) (of_decide_eq_true hbc))
  · simpa [byTick] using Nat.le_total a.2.tick b.2.tick

theorem filter_labelledStream {p : Label → Bool} {kept : List LabelledEvent} {settings : Settings}
    {clock : Clock α} {perf : Performance α} {i : Nat} {part : PlayedPart α} {channel : Nat}
    (h : (labelledEvents settings clock perf i part channel).filter (fun e => p e.1) = kept)
    (hsorted : kept.Pairwise fun a b => byTick a b = true) :
    (labelledStream settings clock perf i part channel).filter (fun e => p e.1) =
      kept.map LabelledEvent.written := by
  rw [labelledStream, List.filter_map]
  exact congrArg _ (filter_mergeSort_byTick h hsorted)

theorem pairwise_byTick {xs ys : List LabelledEvent} {s t : Nat} (hst : s ≤ t)
    (hxs : ∀ x ∈ xs, x.2.tick = s) (hys : ∀ y ∈ ys, y.2.tick = t) :
    (xs ++ ys).Pairwise fun a b => byTick a b = true := by
  have hconst {zs : List LabelledEvent} {u : Nat} (hzs : ∀ z ∈ zs, z.2.tick = u) :
      zs.Pairwise fun a b => byTick a b = true :=
    List.pairwise_of_forall_mem_list fun a ha b hb => by simp [byTick, hzs a ha, hzs b hb]
  refine List.pairwise_append.mpr ⟨hconst hxs, hconst hys, fun a ha b hb => ?_⟩
  simpa [byTick, hxs a ha, hys b hb] using hst

theorem tick_of_mem_onEvents {settings : Settings} {clock : Clock α} {channel : Nat}
    {n : PlayedNote α} {label : Label} :
    ∀ x ∈ labelAll label (onEvents settings clock channel n), x.2.tick = (noteTicks clock n).1 := by
  simp [labelAll, onEvents, TimedEvent.send]

theorem tick_of_mem_offEvents {settings : Settings} {clock : Clock α} {channel : Nat}
    {n : PlayedNote α} {label : Label} :
    ∀ x ∈ labelAll label (offEvents settings clock channel n),
      x.2.tick = (noteTicks clock n).2 := by
  simp [labelAll, offEvents, TimedEvent.send]

theorem sevenBits_sentPitch (settings : Settings) (p : PitchValue) :
    sevenBits (sentPitch settings p) = UInt8.ofNat (writtenPitch settings p) := by
  unfold sevenBits sentPitch writtenPitch
  cases h : p.midi? with
  | none => rfl
  | some m =>
    rw [Option.getD_some, Option.getD_some, Nat.mod_eq_of_lt (Nat.lt_succ_of_le (PitchValue.midi?_le h))]

theorem noteVelocity_mem (x : α) : 1 ≤ noteVelocity x ∧ noteVelocity x ≤ 127 := by
  unfold noteVelocity
  omega

theorem written_onEvents (settings : Settings) (clock : Clock α) (channel : Nat)
    (n : PlayedNote α) (label : Label) :
    (labelAll label (onEvents settings clock channel n)).map LabelledEvent.written =
      (noteOns settings clock channel n).map (label, ·) := by
  have hvelocity : sevenBits (noteVelocity n.velocity) = UInt8.ofNat (noteVelocity n.velocity) := by
    have hmem := noteVelocity_mem n.velocity
    rw [sevenBits, Nat.mod_eq_of_lt (by omega)]
  simp [labelAll, onEvents, noteOns, LabelledEvent.written, TimedEvent.send, Event.bytes,
    Message.bytes, sevenBits_sentPitch, hvelocity]

theorem written_offEvents (settings : Settings) (clock : Clock α) (channel : Nat)
    (n : PlayedNote α) (label : Label) :
    (labelAll label (offEvents settings clock channel n)).map LabelledEvent.written =
      (noteOffs settings clock channel n).map (label, ·) := by
  simp [labelAll, offEvents, noteOffs, LabelledEvent.written, TimedEvent.send, Event.bytes,
    Message.bytes, sevenBits_sentPitch]

theorem isNote_bytes_message {channel : Nat} {m : Message} (h : m.isNote = false) :
    isNote (m.bytes channel) = false := by
  have hstatus (kind : Nat) (hkind : kind < 16) (h8 : kind ≠ 8) (h9 : kind ≠ 9) (data : Bytes) :
      isNote (status (16 * kind) channel :: data) = false := by
    simp [isNote, status_div kind hkind, h8, h9]
  cases m with
  | noteOn pitch velocity => cases h
  | noteOff pitch => cases h
  | control controller value => exact hstatus 11 (by decide) (by decide) (by decide) _
  | program number => exact hstatus 12 (by decide) (by decide) (by decide) _
  | pressure value => exact hstatus 13 (by decide) (by decide) (by decide) _
  | bend value => exact hstatus 14 (by decide) (by decide) (by decide) _

def LabelledEvent.Truthful (e : LabelledEvent) : Prop :=
  e.1 = .other → isNote e.2.event.bytes = false

theorem truthful_labelAll (label : Label) {events : List TimedEvent}
    (h : label = .other → ∀ e ∈ events, isNote e.event.bytes = false) :
    ∀ x ∈ labelAll label events, x.Truthful := by
  intro x hx hother
  obtain ⟨e, he, rfl⟩ := List.mem_map.mp hx
  exact h hother e he

theorem truthful_labelledGroup (settings : Settings) (clock : Clock α) (path : String)
    (channel k : Nat) (n : PlayedNote α) (centred : Bool) :
    ∀ x ∈ labelledGroup settings clock path channel k n centred, x.Truthful := by
  intro x hx
  simp only [labelledGroup, List.mem_append] at hx
  rcases hx with (((hx | hx) | hx) | hx) | hx
  · refine truthful_labelAll .other (fun _ e he => ?_) x hx
    simp only [bendEvents, Option.mem_toList, Option.map_eq_some_iff] at he
    obtain ⟨cents, -, rfl⟩ := he
    exact isNote_bytes_message (m := .bend _) rfl
  · exact truthful_labelAll (.on k) (fun h => nomatch h) x hx
  · refine truthful_labelAll .other (fun _ e he => ?_) x hx
    obtain ⟨m, -, he⟩ := List.mem_flatMap.mp he
    obtain ⟨message, hmessage, rfl⟩ := mem_modulationEvents he
    exact isNote_bytes_message hmessage
  · exact truthful_labelAll (.off k) (fun h => nomatch h) x hx
  · refine truthful_labelAll .other (fun _ e he => ?_) x hx
    rw [mem_recentreEvent he]
    exact isNote_bytes_message (m := .bend _) rfl

theorem truthful_labelledEvents (settings : Settings) (clock : Clock α) (perf : Performance α)
    (i : Nat) (part : PlayedPart α) (channel : Nat) :
    ∀ x ∈ labelledEvents settings clock perf i part channel, x.Truthful := by
  intro x hx
  simp only [labelledEvents, List.mem_append] at hx
  rcases hx with (hx | hx) | hx
  · refine truthful_labelAll .other (fun _ e he => ?_) x hx
    rcases List.mem_cons.mp he with rfl | he
    · rfl
    · rw [List.mem_singleton.mp he]
      exact isNote_bytes_message (m := .program _) rfl
  · obtain ⟨y, -, hx⟩ := List.mem_flatMap.mp hx
    exact truthful_labelledGroup settings clock _ channel y.2 y.1.1 y.1.2 x hx
  · refine truthful_labelAll .other (fun _ e he => ?_) x hx
    obtain ⟨a, -, he⟩ := List.mem_flatMap.mp he
    obtain ⟨message, hmessage, rfl⟩ := mem_automationEvent he
    exact isNote_bytes_message hmessage

theorem mem_labelledStream {settings : Settings} {clock : Clock α} {perf : Performance α}
    {i : Nat} {part : PlayedPart α} {channel : Nat} {e : Label × Nat × Bytes}
    (h : e ∈ labelledStream settings clock perf i part channel) :
    ∃ x ∈ labelledEvents settings clock perf i part channel, e = x.written := by
  obtain ⟨x, hx, rfl⟩ := List.mem_map.mp h
  exact ⟨x, List.mem_mergeSort.mp hx, rfl⟩

theorem attributed_labelledStream (settings : Settings) (clock : Clock α) (perf : Performance α)
    (i : Nat) (part : PlayedPart α) (channel : Nat) :
    Attributed settings clock channel (orderedNotes part)
      (labelledStream settings clock perf i part channel) where
  each k n hn := by
    have hevents := filter_labelledEvents (p := fun label => label.note? == some k) rfl settings
      clock perf i part channel
    rw [flatMap_zipIdx_one (k := k) hn fun m j _ hj => by
      have hne : j ≠ k := by omega
      simp [switches, Label.note?, hne]] at hevents
    have hswitches : switches settings clock channel (fun label => label.note? == some k) (0 + k) n =
        labelAll (.on k) (onEvents settings clock channel n)
          ++ labelAll (.off k) (offEvents settings clock channel n) := by
      simp [switches, Label.note?]
    have hstream := filter_labelledStream (p := fun label => label.note? == some k)
      (hevents.trans hswitches)
      (pairwise_byTick (start_le_stop clock n) tick_of_mem_onEvents tick_of_mem_offEvents)
    rwa [List.map_append, written_onEvents, written_offEvents] at hstream
  inTurn k l n m hkl hn hm hticks := by
    have hne : k ≠ l := by omega
    have hevents := filter_labelledEvents
      (p := fun label => label == .off k || label == .on l) rfl settings clock perf i part channel
    rw [flatMap_zipIdx_two (k := k) (l := l) hkl hn hm fun q j _ hk hl => by
      have hk : j ≠ k := by omega
      have hl : j ≠ l := by omega
      simp [switches, hk, hl]] at hevents
    have hfirst : switches settings clock channel
        (fun label => label == .off k || label == .on l) (0 + k) n =
        labelAll (.off k) (offEvents settings clock channel n) := by
      simp [switches, hne]
    have hsecond : switches settings clock channel
        (fun label => label == .off k || label == .on l) (0 + l) m =
        labelAll (.on l) (onEvents settings clock channel m) := by
      simp [switches, hne.symm]
    rw [hfirst, hsecond] at hevents
    have hstream := filter_labelledStream (p := fun label => label == .off k || label == .on l)
      hevents (pairwise_byTick hticks tick_of_mem_offEvents tick_of_mem_onEvents)
    rwa [List.map_append, written_onEvents, written_offEvents] at hstream
  known e he k hk := by
    obtain ⟨x, hx, rfl⟩ := mem_labelledStream he
    have hmem : x ∈ (labelledEvents settings clock perf i part channel).filter
        fun e => e.1.note? == some k := List.mem_filter.mpr ⟨hx, beq_iff_eq.mpr hk⟩
    rw [filter_labelledEvents (p := fun label => label.note? == some k) rfl] at hmem
    obtain ⟨⟨n, j⟩, hj, hx⟩ := List.mem_flatMap.mp hmem
    have hjk : j = k := by
      by_contra hne
      simp [switches, Label.note?, hne] at hx
    subst hjk
    exact (List.getElem?_eq_some_iff.mp (List.mk_mem_zipIdx_iff_getElem?.mp hj)).1
  others e he hother := by
    obtain ⟨x, hx, rfl⟩ := mem_labelledStream he
    exact truthful_labelledEvents settings clock perf i part channel x hx hother

end Partitura.Midi
