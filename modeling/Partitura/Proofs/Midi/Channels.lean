import Partitura.Proofs.Midi.Notes

/-!
# The channels of parts

Parts that ask for no channel are given the open ones in turn, whatever the other parts ask for.
As long as there are enough of them, none is given out twice and none is that of the drums. Only
a part that asks for one of those given out shares it.
-/

namespace Partitura.Midi

def openChannels : List Nat := (List.range 16).filter (· ≠ drumChannel)

def drawn (before : Nat) : Nat := if before < drumChannel then before else before + 1

theorem skipDrums_succ_drawn (before : Nat) :
    skipDrums (drawn before + 1) = drawn (before + 1) := by
  unfold skipDrums drawn drumChannel
  split_ifs <;> omega

theorem openChannels_eq_map_drawn : openChannels = (List.range 15).map drawn := by decide

theorem map_drawn_eq_take {count : Nat} (h : count ≤ 15) :
    (List.range count).map (fun before => min (drawn before) 15 % 16) =
      openChannels.take count := by
  rw [openChannels_eq_map_drawn, ← List.map_take, List.take_range, Nat.min_eq_left h]
  refine List.map_congr_left fun before hbefore => ?_
  have hlt := List.mem_range.mp hbefore
  unfold drawn drumChannel
  split_ifs <;> omega

/-! ## Giving out channels -/

section Parts

variable {α : Type}

def asksForNone (p : PlayedPart α) : Bool := p.midiChannel.isNone

def allotted (parts : List (PlayedPart α)) (channels : List Nat) : List Nat :=
  ((parts.zip channels).filter fun x => asksForNone x.1).map Prod.snd

theorem allotted_cons_of_asked {p : PlayedPart α} {c : Nat} (h : p.midiChannel = some c)
    (parts : List (PlayedPart α)) (channel : Nat) (channels : List Nat) :
    allotted (p :: parts) (channel :: channels) = allotted parts channels := by
  simp [allotted, asksForNone, h]

theorem allotted_cons_of_none {p : PlayedPart α} (h : p.midiChannel = none)
    (parts : List (PlayedPart α)) (channel : Nat) (channels : List Nat) :
    allotted (p :: parts) (channel :: channels) = channel :: allotted parts channels := by
  simp [allotted, asksForNone, h]

theorem allotted_map (f : Nat → Nat) (parts : List (PlayedPart α)) (channels : List Nat) :
    allotted parts (channels.map f) = (allotted parts channels).map f := by
  simp [allotted, List.zip_map_right, List.filter_map, Function.comp_def]

theorem allotted_assignChannels {next before : Nat} (h : skipDrums next = drawn before)
    (parts : List (PlayedPart α)) :
    allotted parts (assignChannels next parts) =
      (List.range' before (parts.countP asksForNone)).map fun k => min (drawn k) 15 := by
  induction parts generalizing next before with
  | nil => rfl
  | cons p rest ih =>
    cases hp : p.midiChannel with
    | some channel =>
      -- the counter stays where it is
      have hcount : (p :: rest).countP asksForNone = rest.countP asksForNone :=
        List.countP_cons_of_neg (by simp [asksForNone, hp])
      simp only [assignChannels, hp, allotted_cons_of_asked hp, ih h, hcount]
    | none =>
      have hcount : (p :: rest).countP asksForNone = rest.countP asksForNone + 1 :=
        List.countP_cons_of_pos (by simp [asksForNone, hp])
      have hrest := ih (skipDrums_succ_drawn before)
      simp only [assignChannels, hp, h, allotted_cons_of_none hp, hrest, hcount,
        List.range'_succ, List.map_cons]

/-- Parts that ask for no channel get the open ones in order, one each. -/
structure AllottedInOrder (parts : List (PlayedPart α)) (channels : List Nat) : Prop where
  length : channels.length = parts.length
  asked : ∀ x ∈ parts.zip channels, ∀ c, x.1.midiChannel = some c → x.2 = c % 16
  inOrder : allotted parts channels = openChannels.take (parts.countP asksForNone)
  noDrums : drumChannel ∉ allotted parts channels
  apart : (allotted parts channels).Nodup

theorem allottedInOrder_assignChannels {parts : List (PlayedPart α)}
    (h : parts.countP asksForNone ≤ 15) :
    AllottedInOrder parts ((assignChannels 0 parts).map (· % 16)) := by
  have hnext : skipDrums 0 = drawn 0 := rfl
  have hall : allotted parts ((assignChannels 0 parts).map (· % 16)) =
      openChannels.take (parts.countP asksForNone) := by
    rw [allotted_map, allotted_assignChannels hnext, ← List.range_eq_range',
      List.map_map, ← map_drawn_eq_take h]
    rfl
  refine ⟨by simp, fun x hx c hc => ?_, hall, ?_, ?_⟩
  · obtain ⟨i, hi⟩ := List.mem_iff_getElem?.mp hx
    obtain ⟨hpart, hchannel⟩ := List.getElem?_zip_eq_some.mp hi
    obtain ⟨channel, hgiven, hown⟩ := getElem?_assignChannels hpart 0
    rw [List.getElem?_map, hgiven, Option.map_some, hown c hc] at hchannel
    exact (Option.some.inj hchannel).symm
  · rw [hall]
    exact fun hmem => absurd (List.mem_of_mem_take hmem) (by decide)
  · rw [hall]
    exact (show openChannels.Nodup by decide).sublist (List.take_sublist _ _)

end Parts

/-! ## Tracks -/

def programChannel? (track : List TimedEvent) : Option Nat :=
  track.findSome? fun e => match e.event with
    | .channel number (.program _) => some (number % 16)
    | _ => none

variable {α : Type} [Scalar α]

theorem programChannel?_partEvents (settings : Settings) (clock : Clock α) (perf : Performance α)
    (i : Nat) (part : PlayedPart α) (channel : Nat) :
    programChannel? (partEvents settings clock perf i part channel).value =
      some (channel % 16) := by
  rw [value_partEvents]
  rfl

theorem map_programChannel?_tracks (settings : Settings) (p : Performance α) :
    (tracks settings p).value.tail.map programChannel? =
      (assignChannels 0 p.parts).map fun channel => some (channel % 16) := by
  let pairs := p.parts.zip (assignChannels 0 p.parts)
  have hsnd : pairs.map Prod.snd = assignChannels 0 p.parts := List.map_snd_zip (by simp)
  calc (tracks settings p).value.tail.map programChannel?
      = pairs.zipIdx.map fun x => some (x.1.2 % 16) := by
        rw [tracks, Outcome.value_bind, Outcome.value_collect, List.map_map]
        simp only [Outcome.value_pure, List.tail_cons, List.map_map]
        exact List.map_congr_left fun x _ => programChannel?_partEvents ..
    _ = ((pairs.zipIdx.map Prod.fst).map Prod.snd).map fun channel => some (channel % 16) := by
        rw [List.map_map, List.map_map]
        rfl
    _ = (pairs.map Prod.snd).map fun channel => some (channel % 16) := by
        rw [List.zipIdx_map_fst]
    _ = (assignChannels 0 p.parts).map fun channel => some (channel % 16) := by rw [hsnd]

/-- With at most 15 parts, those that ask for no channel have one each, and none that of the
drums. -/
theorem allottedInOrder_tracks (settings : Settings) (p : Performance α)
    (h : p.parts.length ≤ 15) :
    ∃ channels, (tracks settings p).value.tail.map programChannel? = channels.map some ∧
      AllottedInOrder p.parts channels := by
  refine ⟨(assignChannels 0 p.parts).map (· % 16), ?_,
    allottedInOrder_assignChannels (List.countP_le_length.trans h)⟩
  rw [map_programChannel?_tracks, List.map_map]
  rfl

theorem allottedInOrder_tracks_song :
    let part (label : String) (channel : Option Nat) : PlayedPart Rat :=
      ⟨label, ⟨none, .synth, []⟩, [], [], .once, channel⟩
    let song : Performance Rat := ⟨formatName, formatVersion, 120, .common, none, .constant 120,
      [], [], ⟨none, none, none⟩, [], [],
      [part "lead" none, part "drums" (some 9), part "bass" none], [], [], []⟩
    song.parts.length ≤ 15 ∧
    ∃ channels, (tracks .standard song).value.tail.map programChannel? = channels.map some ∧
      AllottedInOrder song.parts channels := by
  intro part song
  have hlength : song.parts.length ≤ 15 := by decide
  exact ⟨hlength, allottedInOrder_tracks .standard song hlength⟩

/-- A channel that a part asks for is not left out: these two parts are both on the first one. -/
theorem shared_programChannel :
    let part (label : String) (channel : Option Nat) : PlayedPart Rat :=
      ⟨label, ⟨none, .synth, []⟩, [], [], .once, channel⟩
    let song : Performance Rat := ⟨formatName, formatVersion, 120, .common, none, .constant 120,
      [], [], ⟨none, none, none⟩, [], [], [part "lead" none, part "bass" (some 0)], [], [], []⟩
    song.parts.length ≤ 15 ∧ song.parts.map PlayedPart.midiChannel = [none, some 0] ∧
      (tracks .standard song).value.tail.map programChannel? = [some 0, some 0] := by
  intro part song
  refine ⟨by decide, rfl, ?_⟩
  rw [map_programChannel?_tracks]
  rfl

end Partitura.Midi
