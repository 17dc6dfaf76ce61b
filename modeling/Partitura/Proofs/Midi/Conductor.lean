import Partitura.Proofs.Midi.Attribution
import Partitura.Proofs.Midi.Encode
import Partitura.Proofs.Midi.OnBeat
import Partitura.Proofs.Midi.Quantity
import Partitura.Proofs.Music.Meter
import Partitura.Proofs.Number.Bounded
import Partitura.Proofs.Performance.Faithful
import Partitura.Proofs.Time.Breakpoints

/-!
# The conductor track gives back the maps

Tempos, meters, keys and remarks are put into the conductor track one kind after the other and only
then sorted by their ticks. Within a kind they are put in as they follow one another, so the sort
moves none of them against its own kind: what is read last at or before a tick is what was in force
there, the values at the start coming before the changes that fall on it.

The bytes are read as the format has them: a tempo is three bytes of microseconds, a meter the beats
of a bar and the power of two that one of them is, a key the sharps or flats with a sign and whether
it is minor, and a remark is told by its code and holds its text.
-/

namespace Partitura.Midi

variable {α : Type} [Scalar α]

/-! ## What a mark says -/

/-- The code and the data of a mark, whose length is counted in 32 bits. -/
def mark? : Bytes → Option (UInt8 × Bytes)
  | 0xFF :: code :: bs => do
    let (length, data) ← readQuantity 5 0 bs
    if length = data.length % 4294967296 then some (code, data) else none
  | _ => none

def tempo? : UInt8 × Bytes → Option Nat
  | (0x51, [high, middle, low]) => some (bigEndian [high, middle, low])
  | _ => none

def meter? : UInt8 × Bytes → Option Meter
  | (0x58, [numerator, power, _, _]) => some ⟨numerator.toNat, 2 ^ power.toNat⟩
  | _ => none

/-- The sharps of a key, its flats below zero, and whether it is minor. -/
def key? : UInt8 × Bytes → Option (Int × Bool)
  | (0x59, [sharps, 0]) => some (sharps.toInt8.toInt, false)
  | (0x59, [sharps, 1]) => some (sharps.toInt8.toInt, true)
  | _ => none

def remark? : UInt8 × Bytes → Option (RemarkKind × Bytes)
  | (0x01, text) => some (.text, text)
  | (0x05, text) => some (.lyric, text)
  | (0x06, text) => some (.marker, text)
  | (0x07, text) => some (.cue, text)
  | _ => none

def reads {γ : Type} (read? : UInt8 × Bytes → Option γ) (stream : List (Nat × Bytes)) :
    List (Nat × γ) :=
  stream.filterMap fun e => ((mark? e.2).bind read?).map (e.1, ·)

def latest? {γ : Type} (tick : Nat) (changes : List (Nat × γ)) : Option (Nat × γ) :=
  (changes.filter fun c => decide (c.1 ≤ tick)).getLast?

/-- The microseconds of a quarter note at a tempo, rounded and held in 24 bits. -/
def quarterMicros (bpm : α) : Nat :=
  Scalar.word (Scalar.clampTo 1 16777215 (Scalar.round (60000000 / bpm)))

def keyShown (k : Key) : Int × Bool := (k.signature, k.mode.isMinor)

/-- A stream of events that gives back the maps of a performance at every tick, and its remarks. -/
structure Conducts (p : Performance α) (clock : Clock α) (stream : List (Nat × Bytes)) : Prop where
  tempo : ∀ tick, latest? tick (reads tempo? stream) =
    latest? tick (p.tempo.segments.map fun s => (clock.tickAtBeat s.beat, quarterMicros s.bpm))
  meter : ∀ tick, latest? tick (reads meter? stream) =
    some ((latest? tick (p.meterChanges.map fun c => (clock.tick c.seconds, c.value))).getD
      (0, p.meter))
  key : ∀ tick, latest? tick (reads key? stream) =
    (latest? tick (p.keyChanges.map fun c => (clock.tick c.seconds, keyShown c.value))).or
      (p.key.map fun k => (0, keyShown k))
  remarks : reads remark? stream =
    p.remarks.map fun r => (clock.tick r.time, r.kind, r.text.toUTF8.toList)
  inTime : p.remarks.Pairwise fun a b => a.time ≤ b.time

/-- The ticks of a clock go up along the stretches of its tempo map, and with the seconds. -/
structure Clock.Ascends (clock : Clock α) : Prop where
  beats : clock.tempo.segments.Pairwise fun a b =>
    clock.tickAtBeat a.beat ≤ clock.tickAtBeat b.beat
  seconds : ∀ a b, a ≤ b → clock.tick a ≤ clock.tick b

/-! ## Numbers in bytes -/

def tempoData (bpm : α) : Bytes := big24 (quarterMicros bpm)

def meterData (m : Meter) : Bytes :=
  [UInt8.ofNat m.numerator, UInt8.ofNat m.denominatorLog, 0x18, 0x08]

def keyData (k : Key) : Bytes := [UInt8.ofNat k.midiBytes.1, UInt8.ofNat k.midiBytes.2]

theorem mark?_markBytes (code : Nat) (data : Bytes) :
    mark? (markBytes code data) = some (UInt8.ofNat code, data) := by
  have hlength : data.length % 4294967296 < 128 ^ (4 + 1) := by omega
  show (readQuantity (4 + 1) 0 (quantity (data.length % 4294967296) ++ data)).bind _ = _
  rw [readQuantity_quantity hlength, Option.bind_some]
  exact if_pos rfl

theorem bigEndian_big24 {n : Nat} (h : n ≤ 16777215) : bigEndian (big24 n) = n := by
  simp only [bigEndian, big24, big16, List.foldl_cons, List.foldl_nil, UInt8.toNat_ofNat']
  omega

theorem tempo?_tempoData [BoundedScalar α] (bpm : α) :
    tempo? (0x51, tempoData bpm) = some (quarterMicros bpm) :=
  congrArg some (bigEndian_big24 (BoundedScalar.word_clampTo _))

theorem meter?_meterData {m : Meter} (h : m.Written) : meter? (0x58, meterData m) = some m := by
  obtain ⟨hpow, hlog⟩ := two_pow_denominatorLog h
  have hsmall := h.small
  show some (⟨(UInt8.ofNat m.numerator).toNat, 2 ^ (UInt8.ofNat m.denominatorLog).toNat⟩ : Meter) = _
  rw [UInt8.toNat_ofNat', UInt8.toNat_ofNat', Nat.mod_eq_of_lt (by omega),
    Nat.mod_eq_of_lt (by omega), hpow]

theorem key?_keyData (k : Key) : key? (0x59, keyData k) = some (keyShown k) := by
  have hall : ∀ n : Fin 15,
      (UInt8.ofNat (((n : Int) - 7) % 256).toNat).toInt8.toInt = (n : Int) - 7 := by decide +kernel
  have hsharps : (UInt8.ofNat (k.signature % 256).toNat).toInt8.toInt = k.signature := by
    have hrange : -7 ≤ k.signature ∧ k.signature ≤ 7 := by
      unfold Key.signature
      omega
    have hvalue := hall ⟨(k.signature + 7).toNat, by omega⟩
    rwa [show ((k.signature + 7).toNat : Int) - 7 = k.signature by omega] at hvalue
  unfold keyData Key.midiBytes keyShown
  cases k.mode.isMinor with
  | false => exact congrArg (fun n => some (n, false)) hsharps
  | true => exact congrArg (fun n => some (n, true)) hsharps

/-! ## Tempos -/

open Number in
/-- Over exact numbers, as far as 24 bits go, the microseconds of a tempo are the nearest ones. -/
theorem abs_quarterMicros_sub_le {bpm : Rat} (hslow : 60000000 / 16777215 ≤ bpm)
    (hfast : bpm ≤ 60000000) : |(quarterMicros bpm : Rat) - 60000000 / bpm| ≤ 1 / 2 := by
  have hpos : 0 < bpm := lt_of_lt_of_le (by norm_num) hslow
  have hlow : 1 ≤ 60000000 / bpm := (one_le_div hpos).mpr hfast
  have hhigh : 60000000 / bpm ≤ 16777215 := by
    rw [div_le_iff₀ hpos]
    linarith
  obtain ⟨n, hn⟩ : ∃ n, roundHalfAway (60000000 / bpm) = n := ⟨_, rfl⟩
  obtain ⟨habove, hbelow⟩ := (roundHalfAway_eq_iff_of_nonneg (zero_le_one.trans hlow)).mp hn
  have hone : 1 ≤ n := by
    have hlt : (0 : Rat) < n := by linarith
    exact_mod_cast hlt
  have hmost : n ≤ 16777215 := by
    have hlt : (n : Rat) < 16777216 := by linarith
    exact Int.lt_add_one_iff.mp (by exact_mod_cast hlt)
  have hmicros : quarterMicros bpm = n.toNat := by
    show Scalar.word (Scalar.clampTo 1 16777215 ((roundHalfAway (60000000 / bpm) : Int) : Rat)) = _
    rw [hn, clampTo_eq (by decide), min_eq_right (by exact_mod_cast hmost),
      max_eq_right (by exact_mod_cast hone), word_intCast]
    omega
  have hcast : ((n.toNat : Nat) : Rat) = n := by
    exact_mod_cast Int.toNat_of_nonneg (zero_le_one.trans hone)
  rw [hmicros, hcast, abs_le]
  constructor <;> linarith

/-! ## What is put in -/

theorem reads_append {γ : Type} (read? : UInt8 × Bytes → Option γ) (a b : List (Nat × Bytes)) :
    reads read? (a ++ b) = reads read? a ++ reads read? b := List.filterMap_append

theorem reads_marks {β γ : Type} (read? : UInt8 × Bytes → Option γ) (tick : β → Nat) (code : β → Nat)
    (data : β → Bytes) (items : List β) :
    reads read? (items.map fun x => (tick x, markBytes (code x) (data x))) =
      items.filterMap fun x => (read? (UInt8.ofNat (code x), data x)).map (tick x, ·) := by
  unfold reads
  rw [List.filterMap_map]
  refine List.filterMap_congr fun x _ => ?_
  simp only [Function.comp_apply, mark?_markBytes, Option.bind_some]

theorem entries_conductorEvents (p : Performance α) (clock : Clock α) :
    (conductorEvents p clock).map (fun e => (e.tick, e.event.bytes)) =
      (p.metadata.name.toList.map fun name => (0, markBytes 0x03 (textBytes name)))
        ++ [p.meter].map (fun m => (0, markBytes 0x58 (meterData m)))
        ++ p.key.toList.map (fun k => (0, markBytes 0x59 (keyData k)))
        ++ p.tempo.segments.map (fun s =>
          (clock.tickAtBeat s.beat, markBytes 0x51 (tempoData s.bpm)))
        ++ p.meterChanges.map (fun c => (clock.tick c.seconds, markBytes 0x58 (meterData c.value)))
        ++ p.keyChanges.map (fun c => (clock.tick c.seconds, markBytes 0x59 (keyData c.value)))
        ++ p.remarks.map fun r =>
          (clock.tick r.time, markBytes (remarkMark r.kind).code (textBytes r.text)) := by
  unfold conductorEvents
  simp only [List.map_append, List.map_map, List.map_cons, List.map_nil]
  cases p.metadata.name <;> cases p.key <;> rfl

section Entries

variable {p : Performance α} {clock : Clock α}

theorem reads_tempo [BoundedScalar α] :
    reads tempo? ((conductorEvents p clock).map fun e => (e.tick, e.event.bytes)) =
      p.tempo.segments.map fun s => (clock.tickAtBeat s.beat, quarterMicros s.bpm) := by
  have hname (data : Bytes) : tempo? (0x03, data) = none := rfl
  have hmeter (data : Bytes) : tempo? (0x58, data) = none := rfl
  have hkey (data : Bytes) : tempo? (0x59, data) = none := rfl
  have hremark (r : PlayedRemark α) :
      tempo? (UInt8.ofNat (remarkMark r.kind).code, textBytes r.text) = none := by
    cases r.kind <;> rfl
  rw [entries_conductorEvents]
  simp only [reads_append, reads_marks]
  simp [hname, hmeter, hkey, hremark, tempo?_tempoData]

theorem reads_meter (h : p.MetersWritten) :
    reads meter? ((conductorEvents p clock).map fun e => (e.tick, e.event.bytes)) =
      (0, p.meter) :: p.meterChanges.map fun c => (clock.tick c.seconds, c.value) := by
  have hchanges : p.meterChanges.filterMap (fun c =>
      (meter? (0x58, meterData c.value)).map (clock.tick c.seconds, ·)) =
        p.meterChanges.map fun c => (clock.tick c.seconds, c.value) := by
    rw [← List.filterMap_eq_map]
    refine List.filterMap_congr fun c hc => ?_
    rw [meter?_meterData (h.2 c hc)]
    rfl
  have hname (data : Bytes) : meter? (0x03, data) = none := rfl
  have htempo (data : Bytes) : meter? (0x51, data) = none := rfl
  have hkey (data : Bytes) : meter? (0x59, data) = none := rfl
  have hremark (r : PlayedRemark α) :
      meter? (UInt8.ofNat (remarkMark r.kind).code, textBytes r.text) = none := by
    cases r.kind <;> rfl
  rw [entries_conductorEvents]
  simp only [reads_append, reads_marks]
  simp [hname, htempo, hkey, hremark, hchanges, meter?_meterData h.1]

theorem reads_key :
    reads key? ((conductorEvents p clock).map fun e => (e.tick, e.event.bytes)) =
      (p.key.toList.map fun k => (0, keyShown k)) ++
        p.keyChanges.map fun c => (clock.tick c.seconds, keyShown c.value) := by
  have hname (data : Bytes) : key? (0x03, data) = none := rfl
  have htempo (data : Bytes) : key? (0x51, data) = none := rfl
  have hmeter (data : Bytes) : key? (0x58, data) = none := rfl
  have hremark (r : PlayedRemark α) :
      key? (UInt8.ofNat (remarkMark r.kind).code, textBytes r.text) = none := by
    cases r.kind <;> rfl
  rw [entries_conductorEvents]
  simp only [reads_append, reads_marks]
  simp [hname, htempo, hmeter, hremark, key?_keyData]

theorem reads_remark :
    reads remark? ((conductorEvents p clock).map fun e => (e.tick, e.event.bytes)) =
      p.remarks.map fun r => (clock.tick r.time, r.kind, r.text.toUTF8.toList) := by
  have hname (data : Bytes) : remark? (0x03, data) = none := rfl
  have htempo (data : Bytes) : remark? (0x51, data) = none := rfl
  have hmeter (data : Bytes) : remark? (0x58, data) = none := rfl
  have hkey (data : Bytes) : remark? (0x59, data) = none := rfl
  have hremark (r : PlayedRemark α) :
      remark? (UInt8.ofNat (remarkMark r.kind).code, textBytes r.text) =
        some (r.kind, r.text.toUTF8.toList) := by
    cases r.kind <;> rfl
  rw [entries_conductorEvents]
  simp only [reads_append, reads_marks]
  simp [hname, htempo, hmeter, hkey, hremark]

end Entries

/-! ## The last change -/

section Latest

variable {γ : Type} {tick : Nat}

theorem latest?_cons_zero (x : γ) (changes : List (Nat × γ)) :
    latest? tick ((0, x) :: changes) = some ((latest? tick changes).getD (0, x)) := by
  unfold latest?
  rw [List.filter_cons_of_pos (by simp), List.getLast?_cons]

theorem latest?_append (before after : List (Nat × γ)) :
    latest? tick (before ++ after) = (latest? tick after).or (latest? tick before) := by
  unfold latest?
  rw [List.filter_append, List.getLast?_append]

theorem latest?_toList_zero {β : Type} (value : β → γ) (start : Option β) :
    latest? tick (start.toList.map fun x => (0, value x)) = start.map fun x => (0, value x) := by
  cases start <;> rfl

end Latest

/-! ## What is written -/

/-- What is said in the order of its ticks is said so by the events as they are written. -/
theorem reads_written {γ : Type} (read? : UInt8 × Bytes → Option γ) {events : List TimedEvent}
    {said : List (Nat × γ)}
    (h : reads read? (events.map fun e => (e.tick, e.event.bytes)) = said)
    (hsorted : said.Pairwise fun a b => a.1 ≤ b.1) :
    reads read? (written events) = said := by
  subst h
  refine filterMap_mergeSort (decide_le_trans Prod.fst) (decide_le_total Prod.fst) ?_
  refine (List.pairwise_filterMap.mp hsorted).imp fun {a b} hab ha hb => ?_
  obtain ⟨x, hx⟩ := Option.isSome_iff_exists.mp ha
  obtain ⟨y, hy⟩ := Option.isSome_iff_exists.mp hb
  have hle := hab x hx y hy
  obtain ⟨_, _, rfl⟩ := Option.map_eq_some_iff.mp hx
  obtain ⟨_, _, rfl⟩ := Option.map_eq_some_iff.mp hy
  exact decide_eq_true hle

section Written

variable {p : Performance α} {clock : Clock α}

theorem conducts_written [BoundedScalar α] (h : clock.Ascends) (htempo : clock.tempo = p.tempo)
    (hmeters : p.MetersWritten)
    (hmeter : p.meterChanges.Pairwise fun a b => a.seconds ≤ b.seconds)
    (hkey : p.keyChanges.Pairwise fun a b => a.seconds ≤ b.seconds)
    (hremarks : p.remarks.Pairwise fun a b => a.time ≤ b.time) :
    Conducts p clock (written (conductorEvents p clock)) where
  tempo tick := by
    rw [reads_written tempo? reads_tempo (List.pairwise_map.mpr (htempo ▸ h.beats))]
  meter tick := by
    have hchanges : ((0, p.meter) :: p.meterChanges.map fun c =>
        (clock.tick c.seconds, c.value)).Pairwise fun a b => a.1 ≤ b.1 :=
      List.pairwise_cons.mpr ⟨fun _ _ => Nat.zero_le _,
        List.pairwise_map.mpr (hmeter.imp (h.seconds _ _))⟩
    rw [reads_written meter? (reads_meter hmeters) hchanges, latest?_cons_zero]
  key tick := by
    have hchanges : List.Pairwise (fun a b : Nat × Int × Bool => a.1 ≤ b.1)
        ((p.key.toList.map fun k => (0, keyShown k)) ++
          p.keyChanges.map fun c => (clock.tick c.seconds, keyShown c.value)) := by
      refine List.pairwise_append.mpr
        ⟨?_, List.pairwise_map.mpr (hkey.imp (h.seconds _ _)), fun a ha b _ => ?_⟩
      · cases p.key <;> simp
      · obtain ⟨k, -, rfl⟩ := List.mem_map.mp ha
        exact Nat.zero_le _
    rw [reads_written key? reads_key hchanges, latest?_append, latest?_toList_zero]
  remarks := reads_written remark? reads_remark
    (List.pairwise_map.mpr (hremarks.imp (h.seconds _ _)))
  inTime := hremarks

end Written

/-! ## What is read -/

theorem readEvents_written {events : List TimedEvent} (hregular : ∀ e ∈ events, e.Regular)
    (hsize : (trackPayload events).length < 2 ^ 32) :
    ∃ read closing, readEvents 5 0 (trackPayload events) = some (read ++ [closing]) ∧
      closing.IsEnd ∧ read.map (fun r => (r.tick, r.bytes)) = written events := by
  have hfits : ∀ e ∈ events, e.Fits (4 + 1) := by
    intro e he
    have htick := (hregular e he).tick
    refine (hregular e he).fits (by omega) fun kind data hdata => ?_
    have hle := length_data_le he hdata
    omega
  have hstable := stablySorted_byTick events
  obtain ⟨read, closing, hread, hall, hend⟩ := readEvents_closed 0
    (fun e he => hfits e (hstable.perm.mem_iff.mp he)) (fun _ _ => Nat.zero_le _)
    (hstable.pairwise.imp of_decide_eq_true)
  rw [← trackPayload_eq_closed] at hread
  refine ⟨read, closing, hread, hend, ?_⟩
  have hbytes : read.map (fun r => (r.tick, r.bytes)) =
      (events.mergeSort fun a b => decide (a.tick ≤ b.tick)).map
        fun e => (e.tick, e.event.bytes) := by
    rw [← List.forall₂_eq_eq_eq, List.forall₂_map_left_iff, List.forall₂_map_right_iff]
    exact hall.flip.imp fun r e h => Prod.ext h.tick h.bytes
  rw [hbytes]
  exact List.map_mergeSort fun a _ b _ => rfl

/-! ## Performed scores -/

theorem ascends_perform (s : Score Rat) (ticksPerBeat : Nat) :
    Clock.Ascends ⟨(perform s).tempo, ticksPerBeat⟩ := by
  have hlaid := laid_tempo s
  generalize (perform s).tempo = tempo at hlaid ⊢
  have hnonneg : ∀ a ∈ tempo.segments, 0 ≤ a.beat := by
    refine List.forall_mem_cons.mpr ⟨hlaid.starts.1.ge, fun a ha => ?_⟩
    exact hlaid.starts.1 ▸ (hlaid.linked.starts_after a ha).1.le
  constructor
  · refine hlaid.linked.increase.imp_of_mem fun ha _ hab => ?_
    rw [tickAtBeat_eq, tickAtBeat_eq]
    exact beatTick_mono ticksPerBeat (hnonneg _ ha) hab.1.le
  · intro a b hab
    have hmono := (TempoMap.beatAtSeconds_strictMono hlaid.linked).monotone
    rw [Clock.tick, Clock.tick, maxOf_eq_max, maxOf_eq_max, tickAtBeat_eq, tickAtBeat_eq]
    exact beatTick_mono ticksPerBeat (hlaid.beatAtSeconds_nonneg (le_max_right a 0))
      (hmono (max_le_max_right 0 hab))

/-- The conductor track of a performed score gives back its tempos, meters and keys at every tick,
and its remarks. -/
theorem conducts_perform [LawfulScalar α] [OrderedScalar α] [BoundedScalar α]
    (settings : Settings) (s : Score α)
    (h : Clock.Ascends ⟨(perform s).tempo, settings.ticksPerBeat⟩) :
    ∃ events, (tracks settings (perform s)).value.head? = some events ∧
      Conducts (perform s) ⟨(perform s).tempo, settings.ticksPerBeat⟩ (written events) ∧
      ((trackPayload events).length < 2 ^ 32 →
        ∃ read closing, readEvents 5 0 (trackPayload events) = some (read ++ [closing]) ∧
          closing.IsEnd ∧ read.map (fun r => (r.tick, r.bytes)) = written events) := by
  obtain ⟨placed, -, hstable⟩ := inTime_remarks s
  have hremarks := hstable.pairwise.imp of_decide_eq_true
  exact ⟨_, rfl,
    conducts_written h rfl (metersWritten_perform s) (pairwise_meterChanges s)
      (pairwise_keyChanges s) hremarks,
    readEvents_written (regular_conductorEvents _ _)⟩

/-- A meter that changes at the start, a tempo and a remark on one tick, and a change of tempo and
key on another one. -/
theorem conducts_perform_song :
    let song : Score Rat := { Score.empty with
      bpm := some 90
      meter := some "3/4"
      key := some "Eb"
      tempoMap := [⟨.text "1:0", 150⟩, ⟨.seconds 3, 45⟩]
      meterMap := [⟨.seconds 0, "6/8"⟩]
      keyMap := [⟨.seconds 3, "F#m"⟩]
      remarks := [⟨"coda", .text "1:0", some "text"⟩] }
    let clock : Clock Rat := ⟨(perform song).tempo, 480⟩
    clock.Ascends ∧ ∃ events read closing stream,
      (tracks .standard (perform song)).value.head? = some events ∧
      (trackPayload events).length < 2 ^ 32 ∧
      readEvents 5 0 (trackPayload events) = some (read ++ [closing]) ∧
      stream = read.map (fun r => (r.tick, r.bytes)) ∧
      Conducts (perform song) clock stream ∧
      latest? 1439 (reads tempo? stream) = some (0, 666667) ∧
      latest? 1440 (reads tempo? stream) = some (1440, 400000) ∧
      latest? 2640 (reads tempo? stream) = some (2640, 1333333) ∧
      (∀ tick, latest? tick (reads meter? stream) = some (0, ⟨6, 8⟩)) ∧
      latest? 2639 (reads key? stream) = some (0, -3, false) ∧
      latest? 2640 (reads key? stream) = some (2640, 3, true) ∧
      reads remark? stream = [(1440, .text, [0x63, 0x6F, 0x64, 0x61])] := by
  intro song clock
  have htempo : (perform song).tempo = ⟨⟨0, 0, 90⟩, [⟨3, 2, 150⟩, ⟨11 / 2, 3, 45⟩]⟩ := by
    show TempoMap.ofPoints _ _ = _
    rw [TempoMap.ofPoints_of_pairwise (by decide +kernel)]
    decide +kernel
  have hline : (perform song).timeLine =
      ⟨⟨⟨0, 0, 90⟩, [⟨3, 2, 150⟩, ⟨11 / 2, 3, 45⟩]⟩, 3⟩ := by
    have hquarters : (perform song).meter.quarters = (3 : Rat) := by decide +kernel
    rw [Performance.timeLine, htempo, hquarters]
  have hmeters : (perform song).meterChanges = [⟨0, ⟨6, 8⟩⟩] := by
    rw [perform_meterChanges, hline]
    exact List.mergeSort_singleton _
  have hkey : (perform song).key = some ⟨.e, some .flat, .major⟩ := by decide +kernel
  have hkeys : (perform song).keyChanges = [⟨3, ⟨.f, some .sharp, .minor⟩⟩] := by
    rw [perform_keyChanges, hline]
    exact List.mergeSort_singleton _
  have hremarks : (perform song).remarks = [⟨"coda", 2, .text⟩] := by
    have hplace : TimeLine.place ⟨⟨⟨0, 0, 90⟩, [⟨3, 2, 150⟩, ⟨11 / 2, 3, 45⟩]⟩, 3⟩
        (.text "1:0") = (2 : Rat) := by decide +kernel
    have hkind : ((some "text").bind RemarkKind.parse?).getD .marker = .text := by decide +kernel
    rw [perform_remarks, hline]
    show sortByTime _ [(⟨"coda", (TimeLine.position _ _ _).value, (remarkKind _ _).value⟩ :
      PlayedRemark Rat)] = _
    rw [value_position, value_remarkKind, hplace, hkind]
    exact List.mergeSort_singleton _
  have hascends : clock.Ascends := ascends_perform song 480
  obtain ⟨events, hevents, hconducts, hread⟩ := conducts_perform .standard song hascends
  have hsize : (trackPayload events).length < 2 ^ 32 := by
    obtain rfl : conductorEvents (perform song) clock = events := Option.some.inj hevents
    have hsmall : (conductorEvents (perform song) clock).length ≤ 8 ∧
        ∀ e ∈ conductorEvents (perform song) clock, ∀ kind data, e.event = .mark kind data →
          data.length ≤ 5 := by
      have hmetadata : (perform song).metadata.name = none := rfl
      simp [conductorEvents, hmeters, hremarks, htempo, TempoMap.segments, hmetadata, hkey, hkeys,
        TimedEvent.text, TimedEvent.tempo, meterEvent, TimedEvent.meter, keyEvent, TimedEvent.key]
      exact ⟨by decide +kernel, by decide +kernel, by decide +kernel, by decide +kernel⟩
    have hlength := length_trackPayload_le (regular_conductorEvents (perform song) clock)
      fun e he => length_bytes_le (hsmall.2 e he)
    omega
  obtain ⟨read, closing, hread, hend, hwritten⟩ := hread hsize
  have hconducts : Conducts (perform song) clock (read.map fun r => (r.tick, r.bytes)) :=
    hwritten ▸ hconducts
  have hclock : clock = ⟨⟨⟨0, 0, 90⟩, [⟨3, 2, 150⟩, ⟨11 / 2, 3, 45⟩]⟩, 480⟩ := by
    rw [← htempo]
  refine ⟨hascends, events, read, closing, _, hevents, hsize, hread, rfl, hconducts, ?_, ?_, ?_,
    fun tick => ?_, ?_, ?_, ?_⟩
  · rw [hconducts.tempo, htempo, hclock]
    decide +kernel
  · rw [hconducts.tempo, htempo, hclock]
    decide +kernel
  · rw [hconducts.tempo, htempo, hclock]
    decide +kernel
  · have hzero : clock.tick 0 = 0 := by
      rw [hclock]
      decide +kernel
    rw [hconducts.meter, hmeters, List.map_singleton, hzero, latest?_cons_zero]
    rfl
  · rw [hconducts.key, hkey, hkeys, hclock]
    decide +kernel
  · rw [hconducts.key, hkey, hkeys, hclock]
    decide +kernel
  · rw [hconducts.remarks, hremarks, hclock]
    decide +kernel

end Partitura.Midi
