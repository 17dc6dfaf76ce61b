import Partitura.Midi.File
import Partitura.Proofs.Midi.Quantity
import Partitura.Proofs.Number.Lawful
import Partitura.Proofs.Outcome
import Partitura.Proofs.StableSort

/-!
# What is written is read back

Reading a file finds the events that were put into its tracks, at their ticks and
in the order of them, and nothing else. Each part of the format is read back on
its own, in front of whatever follows it: numbers, chunks, the content of an
event, and then by induction the events of a track.
-/

namespace Partitura.Midi

/-! ## Numbers and chunks -/

theorem take?_append {n : Nat} {bs : Bytes} (h : bs.length = n) (rest : Bytes) :
    take? n (bs ++ rest) = some (bs, rest) := by
  subst h
  simp [take?]

theorem readNumber_big16 {n : Nat} (h : n < 2 ^ 16) (bs : Bytes) :
    readNumber 2 (big16 n ++ bs) = some (n, bs) := by
  have hvalue : bigEndian (big16 n) = n := by
    simp only [bigEndian, big16, List.foldl_cons, List.foldl_nil, UInt8.toNat_ofNat']
    omega
  simp [readNumber, take?_append (show (big16 n).length = 2 from rfl), hvalue]

theorem readNumber_big32 {n : Nat} (h : n < 2 ^ 32) (bs : Bytes) :
    readNumber 4 (big32 n ++ bs) = some (n, bs) := by
  have hvalue : bigEndian (big32 n) = n := by
    simp only [bigEndian, big32, big24, big16, List.foldl_cons, List.foldl_nil,
      UInt8.toNat_ofNat']
    omega
  simp [readNumber, take?_append (show (big32 n).length = 4 from rfl), hvalue]

theorem readChunk_chunk (tag : Bytes) {payload : Bytes} (h : payload.length < 2 ^ 32) (rest : Bytes) :
    readChunk tag (chunk tag payload ++ rest) = some (payload, rest) := by
  simp only [readChunk, chunk, List.append_assoc, take?_append (rfl : tag.length = tag.length),
    Option.bind_eq_bind, Option.bind_some, if_true, readNumber_big32 h, take?_append rfl]

/-! ## Events -/

def Content.Complete : Content → Prop
  | .channel status data => dataCount? status = some data.length ∧ ∀ b ∈ data, b < 0x80
  | .mark _ _ => True

structure TimedEvent.Fits (width : Nat) (e : TimedEvent) : Prop where
  tick : e.tick < 128 ^ width
  mark : ∀ kind data, e.event = .mark kind data →
    kind ≠ .trackEnd ∧ data.length < 2 ^ 32 ∧ data.length < 128 ^ width

theorem toNat_status {kind : Nat} (h : kind ≤ 240) (channel : Nat) :
    (status kind channel).toNat = kind + channel % 16 := by
  rw [status, UInt8.toNat_ofNat']
  omega

theorem status_div (kind : Nat) (h : kind < 16) (channel : Nat) :
    (status (16 * kind) channel).toNat / 16 = kind := by
  rw [toNat_status (by omega)]
  omega

theorem sevenBits_lt (n : Nat) : sevenBits n < 0x80 := group_lt n

theorem readContent_channel {width : Nat} {status : UInt8} {data : Bytes}
    (h : (Content.channel status data).Complete) (rest : Bytes) :
    readContent width (status :: data ++ rest) = some (.channel status data, rest) := by
  have hdata : (data.all fun b => decide (b < 0x80)) = true := by simpa using h.2
  have hstatus : status ≠ 0xFF := by
    rintro rfl
    exact absurd h.1 nofun
  rw [List.cons_append, readContent.eq_def]
  split
  · rename_i heq
    exact absurd (List.cons.inj heq).1 hstatus
  · rename_i heq
    obtain ⟨rfl, rfl⟩ := List.cons.inj heq
    rw [h.1]
    show (take? data.length (data ++ rest)).bind _ = _
    rw [take?_append rfl, Option.bind_some]
    exact if_pos hdata
  · rename_i heq
    cases heq

theorem complete_message (channel : Nat) (m : Message) :
    ∃ status data, m.bytes channel = status :: data ∧ (Content.channel status data).Complete := by
  have hseven := sevenBits_lt
  cases m with
  | noteOn pitch velocity =>
    refine ⟨_, _, rfl, ?_, by simp [hseven]⟩
    rw [dataCount?, show 0x90 = 16 * 9 from rfl, status_div 9 (by decide)]
    rfl
  | noteOff pitch =>
    refine ⟨_, _, rfl, ?_, by simp [hseven]⟩
    rw [dataCount?, show 0x80 = 16 * 8 from rfl, status_div 8 (by decide)]
    rfl
  | control controller value =>
    refine ⟨_, _, rfl, ?_, by simp [hseven]⟩
    rw [dataCount?, show 0xB0 = 16 * 11 from rfl, status_div 11 (by decide)]
    rfl
  | program number =>
    refine ⟨_, _, rfl, ?_, by simp [hseven]⟩
    rw [dataCount?, show 0xC0 = 16 * 12 from rfl, status_div 12 (by decide)]
    rfl
  | pressure value =>
    refine ⟨_, _, rfl, ?_, by simp [hseven]⟩
    rw [dataCount?, show 0xD0 = 16 * 13 from rfl, status_div 13 (by decide)]
    rfl
  | bend value =>
    refine ⟨_, _, rfl, ?_, by simp [hseven]⟩
    rw [dataCount?, show 0xE0 = 16 * 14 from rfl, status_div 14 (by decide)]
    rfl

theorem readContent_markBytes {width code : Nat} {data : Bytes} (h : data.length < 2 ^ 32)
    (hwidth : data.length < 128 ^ (width + 1)) (rest : Bytes) :
    readContent (width + 1) (markBytes code data ++ rest) =
      some (.mark (UInt8.ofNat code) data, rest) := by
  have hlength : data.length % 4294967296 = data.length := Nat.mod_eq_of_lt h
  simp only [markBytes, hlength, List.cons_append, List.nil_append, List.append_assoc,
    readContent, readQuantity_quantity hwidth, take?_append rfl, Option.bind_eq_bind,
    Option.bind_some]

theorem closes_ofNat_code {kind : Mark} (h : kind ≠ .trackEnd) (data : Bytes) :
    (Content.mark (UInt8.ofNat kind.code) data).closes = false := by
  cases kind <;> first | rfl | exact absurd rfl h

/-- What is read of an event is the same whatever follows it. -/
theorem readContent_bytes {width : Nat} {e : TimedEvent} (h : e.Fits (width + 1)) :
    ∃ content : Content, content.Complete ∧ content.closes = false ∧
      ∀ rest, readContent (width + 1) (e.event.bytes ++ rest) = some (content, rest) := by
  obtain ⟨tick, event⟩ := e
  cases event with
  | channel number message =>
    obtain ⟨status, data, hbytes, hcomplete⟩ := complete_message number message
    refine ⟨.channel status data, hcomplete, rfl, fun rest => ?_⟩
    rw [Event.bytes, hbytes]
    exact readContent_channel hcomplete rest
  | mark kind data =>
    obtain ⟨hkind, hlength, hwidth⟩ := h.mark kind data rfl
    exact ⟨.mark (UInt8.ofNat kind.code) data, trivial, closes_ofNat_code hkind data,
      readContent_markBytes hlength hwidth⟩

theorem readEvent_of_content {width delta : Nat} {content : Content} {bytes rest : Bytes}
    (last : Nat) (hdelta : delta < 128 ^ (width + 1))
    (h : readContent (width + 1) (bytes ++ rest) = some (content, rest)) :
    readEvent (width + 1) last (quantity delta ++ (bytes ++ rest)) =
      some (⟨last + delta, content, bytes⟩, rest) := by
  simp [readEvent, readQuantity_quantity hdelta, h]

/-! ## Tracks -/

structure TimedEvent.ReadAs (e : TimedEvent) (r : ReadEvent) : Prop where
  tick : r.tick = e.tick
  bytes : r.bytes = e.event.bytes
  complete : r.content.Complete
  inside : r.content.closes = false

structure ReadEvent.IsEnd (r : ReadEvent) : Prop where
  content : r.content = .mark 0x2F []
  bytes : r.bytes = [0xFF, 0x2F, 0x00]

def closed (last : Nat) (events : List TimedEvent) : Bytes :=
  deltas last (events.map fun e => (e.tick, e.event.bytes)) ++ quantity 0
    ++ markBytes Mark.trackEnd.code []

theorem markBytes_trackEnd : markBytes Mark.trackEnd.code [] = [0xFF, 0x2F, 0x00] := by
  simp [markBytes, quantity, leadingGroups, Mark.code]

theorem readEvents_closed {width : Nat} (last : Nat) {events : List TimedEvent}
    (hfits : ∀ e ∈ events, e.Fits (width + 1)) (hlast : ∀ e ∈ events, last ≤ e.tick)
    (hsorted : events.Pairwise fun a b => a.tick ≤ b.tick) :
    ∃ read closing, readEvents (width + 1) last (closed last events) = some (read ++ [closing]) ∧
      List.Forall₂ TimedEvent.ReadAs events read ∧ closing.IsEnd := by
  -- Writer and reader walk along the events side by side, both at the tick of the last one.
  induction events generalizing last with
  | nil =>
    have hzero : 0 < 128 ^ (width + 1) := Nat.pow_pos (by decide)
    have hcontent : readContent (width + 1) (markBytes Mark.trackEnd.code [] ++ []) =
        some (.mark (UInt8.ofNat Mark.trackEnd.code) [], []) :=
      readContent_markBytes (by simp) hzero []
    have hend := readEvent_of_content last hzero hcontent
    simp only [List.append_nil] at hend
    have hclosed : closed last [] = quantity 0 ++ markBytes Mark.trackEnd.code [] := by
      simp [closed, deltas]
    refine ⟨[], ⟨last + 0, .mark 0x2F [], [0xFF, 0x2F, 0x00]⟩, ?_, .nil, ⟨rfl, rfl⟩⟩
    rw [hclosed, readEvents, hend, markBytes_trackEnd]
    rfl
  | cons e rest ih =>
    obtain ⟨hle, hrest⟩ := List.pairwise_cons.mp hsorted
    obtain ⟨content, hcomplete, hinside, hcontent⟩ :=
      readContent_bytes (hfits e (List.mem_cons_self ..))
    obtain ⟨read, closing, hread, hall, hend⟩ :=
      ih e.tick (fun d hd => hfits d (List.mem_cons_of_mem _ hd)) hle hrest
    have hdelta : e.tick - last < 128 ^ (width + 1) :=
      Nat.lt_of_le_of_lt (Nat.sub_le _ _) (hfits e (List.mem_cons_self ..)).tick
    have htick : last + (e.tick - last) = e.tick :=
      Nat.add_sub_cancel' (hlast e (List.mem_cons_self ..))
    have hclosed : closed last (e :: rest) =
        quantity (e.tick - last) ++ (e.event.bytes ++ closed e.tick rest) := by
      simp [closed, deltas]
    have hfirst := readEvent_of_content last hdelta (hcontent (closed e.tick rest))
    rw [htick, ← hclosed] at hfirst
    refine ⟨⟨e.tick, content, e.event.bytes⟩ :: read, closing, ?_, ?_, hend⟩
    · rw [readEvents, hfirst]
      simp [hinside, hread]
    · exact .cons ⟨rfl, rfl, hcomplete, hinside⟩ hall

/-- A track as it is read back: what was put into it in the order of the ticks, what
falls on one tick as it was put in, and then the one event that closes it. -/
def TrackReadAs (events : List TimedEvent) (read : List ReadEvent) : Prop :=
  ∃ sorted inside closing, StablySorted (fun a b => decide (a.tick ≤ b.tick)) events sorted ∧
    read = inside ++ [closing] ∧ List.Forall₂ TimedEvent.ReadAs sorted inside ∧ closing.IsEnd

theorem stablySorted_byTick (events : List TimedEvent) :
    StablySorted (fun a b => decide (a.tick ≤ b.tick)) events
      (events.mergeSort fun a b => decide (a.tick ≤ b.tick)) := by
  refine stablySorted_mergeSort (fun a b c hab hbc => ?_) (fun a b => ?_) events
  · exact decide_eq_true (Nat.le_trans (of_decide_eq_true hab) (of_decide_eq_true hbc))
  · simpa using Nat.le_total a.tick b.tick

theorem trackPayload_eq_closed (events : List TimedEvent) :
    trackPayload events = closed 0 (events.mergeSort fun a b => decide (a.tick ≤ b.tick)) := by
  rw [trackPayload, payload, inOrder, closed, List.map_mergeSort]
  intro a _ b _
  rfl

theorem readEvents_trackPayload {width : Nat} {events : List TimedEvent}
    (hfits : ∀ e ∈ events, e.Fits (width + 1)) :
    ∃ read, readEvents (width + 1) 0 (trackPayload events) = some read ∧
      TrackReadAs events read := by
  have hstable := stablySorted_byTick events
  have hsorted := hstable.pairwise.imp of_decide_eq_true
  obtain ⟨read, closing, hread, hall, hend⟩ := readEvents_closed 0
    (fun e he => hfits e (hstable.perm.mem_iff.mp he)) (fun _ _ => Nat.zero_le _) hsorted
  rw [← trackPayload_eq_closed] at hread
  exact ⟨read ++ [closing], hread, _, read, closing, hstable, rfl, hall, hend⟩

/-! ## Files -/

theorem textBytes_head : textBytes "MThd" = headTag := by decide +kernel

theorem textBytes_track : textBytes "MTrk" = trackTag := by decide +kernel

theorem readTracks_chunks {width : Nat} {tracks : List (List TimedEvent)}
    (hfits : ∀ t ∈ tracks, ∀ e ∈ t, e.Fits (width + 1))
    (hsize : ∀ t ∈ tracks, (trackPayload t).length < 2 ^ 32) :
    ∃ read, readTracks (width + 1) tracks.length
        (tracks.flatMap fun events => chunk (textBytes "MTrk") (trackPayload events)) =
          some (read, []) ∧
      List.Forall₂ TrackReadAs tracks read := by
  induction tracks with
  | nil => exact ⟨[], rfl, .nil⟩
  | cons events rest ih =>
    obtain ⟨read, hread, hall⟩ := ih (fun t ht => hfits t (List.mem_cons_of_mem _ ht))
      fun t ht => hsize t (List.mem_cons_of_mem _ ht)
    obtain ⟨first, hfirst, htrack⟩ := readEvents_trackPayload (hfits events (List.mem_cons_self ..))
    have hchunk := readChunk_chunk trackTag (hsize events (List.mem_cons_self ..))
    rw [textBytes_track] at hread ⊢
    refine ⟨first :: read, ?_, .cons htrack hall⟩
    simp [readTracks, hchunk, hfirst, hread]

theorem fileHead_eq_chunk (count division : Nat) : fileHead count division =
    chunk headTag (big16 1 ++ (big16 count ++ big16 division)) := by
  rw [fileHead, textBytes_head]
  rfl

theorem readFile_file {width division : Nat} {tracks : List (List TimedEvent)}
    (hdivision : division < 2 ^ 16) (hcount : tracks.length < 2 ^ 16)
    (hfits : ∀ t ∈ tracks, ∀ e ∈ t, e.Fits (width + 1))
    (hsize : ∀ t ∈ tracks, (trackPayload t).length < 2 ^ 32) :
    ∃ read, readFile (width + 1) (file division tracks) =
        some ⟨1, tracks.length, division, read⟩ ∧
      List.Forall₂ TrackReadAs tracks read := by
  obtain ⟨read, hread, hall⟩ := readTracks_chunks hfits hsize
  have hformat := readNumber_big16 (n := 1) (by decide)
    (big16 tracks.length ++ big16 division)
  have hlength := readNumber_big16 hcount (big16 division)
  have htempo := readNumber_big16 hdivision []
  rw [List.append_nil] at htempo
  refine ⟨read, ?_, hall⟩
  rw [file, fileHead_eq_chunk]
  have hsix : (big16 1 ++ (big16 tracks.length ++ big16 division)).length < 2 ^ 32 := by
    simp [big16]
  have hhead := readChunk_chunk headTag hsix
  simp [readFile, hhead, hformat, hlength, htempo, hread]

end Partitura.Midi
