import Partitura.Midi.Bytes

/-!
# Reading sequencer files

A reader of sequencer files that knows nothing of how they are written. It takes
chunks by their lengths and events by what their first byte announces, adds up
the ticks between events, and refuses whatever does not come out even: bytes
after the last track or after the end of a track, data bytes with the top bit
set, an event without a status byte, a quantity of more bytes than it allows.
The format allows four bytes; a writer that fills 32 bits needs five.
-/

namespace Partitura.Midi

inductive Content where
  | channel (status : UInt8) (data : Bytes)
  | mark (code : UInt8) (data : Bytes)
deriving DecidableEq, Repr

structure ReadEvent where
  tick : Nat
  content : Content
  bytes : Bytes
deriving DecidableEq, Repr

structure ReadFile where
  format : Nat
  count : Nat
  division : Nat
  tracks : List (List ReadEvent)
deriving DecidableEq, Repr

/-! ## Bytes and numbers -/

def take? (n : Nat) (bs : Bytes) : Option (Bytes × Bytes) :=
  if n ≤ bs.length then some (bs.take n, bs.drop n) else none

def bigEndian (bs : Bytes) : Nat := bs.foldl (fun n b => n * 256 + b.toNat) 0

def readNumber (size : Nat) (bs : Bytes) : Option (Nat × Bytes) := do
  let (digits, rest) ← take? size bs
  some (bigEndian digits, rest)

/-- A quantity of at most `width` bytes more; `acc` is what has been read of it. -/
def readQuantity : (width acc : Nat) → Bytes → Option (Nat × Bytes)
  | 0, _, _ => none
  | _, _, [] => none
  | width + 1, acc, b :: rest =>
    if b.toNat < 128 then some (acc * 128 + b.toNat, rest)
    else readQuantity width (acc * 128 + (b.toNat - 128)) rest

def readChunk (tag bs : Bytes) : Option (Bytes × Bytes) := do
  let (found, bs) ← take? tag.length bs
  if found = tag then
    let (length, bs) ← readNumber 4 bs
    take? length bs
  else none

/-! ## Events -/

def dataCount? (status : UInt8) : Option Nat :=
  match status.toNat / 16 with
  | 0x8 | 0x9 | 0xA | 0xB | 0xE => some 2
  | 0xC | 0xD => some 1
  | _ => none

def readContent (width : Nat) : Bytes → Option (Content × Bytes)
  | 0xFF :: code :: bs => do
    let (length, bs) ← readQuantity width 0 bs
    let (data, rest) ← take? length bs
    some (.mark code data, rest)
  | status :: bs => do
    let (data, rest) ← take? (← dataCount? status) bs
    if data.all fun b => decide (b < 0x80) then some (.channel status data, rest) else none
  | [] => none

def readEvent (width last : Nat) (bs : Bytes) : Option (ReadEvent × Bytes) := do
  let (delta, bs) ← readQuantity width 0 bs
  let (content, rest) ← readContent width bs
  some (⟨last + delta, content, bs.take (bs.length - rest.length)⟩, rest)

def Content.closes : Content → Bool
  | .mark code _ => code == 0x2F
  | .channel _ _ => false

theorem length_of_take? {n : Nat} {bs taken rest : Bytes} (h : take? n bs = some (taken, rest)) :
    rest.length ≤ bs.length := by
  unfold take? at h
  split at h
  · obtain ⟨-, rfl⟩ := Prod.mk.inj (Option.some.inj h)
    simp
  · cases h

theorem readQuantity_shortens {width acc n : Nat} {bs rest : Bytes}
    (h : readQuantity width acc bs = some (n, rest)) : rest.length < bs.length := by
  fun_induction readQuantity width acc bs with
  | case1 => cases h
  | case2 => cases h
  | case3 acc width b tail hb =>
    obtain ⟨-, rfl⟩ := Prod.mk.inj (Option.some.inj h)
    simp
  | case4 acc width b tail hb ih =>
    have hlt := ih h
    simp only [List.length_cons]
    omega

theorem readContent_shortens {width : Nat} {content : Content} {bs rest : Bytes}
    (h : readContent width bs = some (content, rest)) : rest.length < bs.length := by
  unfold readContent at h
  split at h
  · obtain ⟨⟨length, bs⟩, hlength, h⟩ := Option.bind_eq_some_iff.mp h
    obtain ⟨⟨data, rest'⟩, hdata, h⟩ := Option.bind_eq_some_iff.mp h
    obtain ⟨-, rfl⟩ := Prod.mk.inj (Option.some.inj h)
    have hlt := readQuantity_shortens hlength
    have hle := length_of_take? hdata
    simp only [List.length_cons]
    omega
  · obtain ⟨count, -, h⟩ := Option.bind_eq_some_iff.mp h
    obtain ⟨⟨data, rest'⟩, hdata, h⟩ := Option.bind_eq_some_iff.mp h
    have hle := length_of_take? hdata
    dsimp only at h
    split at h
    · obtain ⟨-, rfl⟩ := Prod.mk.inj (Option.some.inj h)
      simp only [List.length_cons]
      omega
    · cases h
  · cases h

theorem readEvent_shortens {width last : Nat} {e : ReadEvent} {bs rest : Bytes}
    (h : readEvent width last bs = some (e, rest)) : rest.length < bs.length := by
  obtain ⟨⟨delta, tail⟩, hdelta, h⟩ := Option.bind_eq_some_iff.mp h
  obtain ⟨⟨content, rest'⟩, hcontent, h⟩ := Option.bind_eq_some_iff.mp h
  obtain ⟨-, rfl⟩ := Prod.mk.inj (Option.some.inj h)
  have htail := readQuantity_shortens hdelta
  have hrest := readContent_shortens hcontent
  omega

/-! ## Tracks and files -/

/-- The events of a payload, up to the one that closes the track; nothing may follow it. -/
def readEvents (width last : Nat) (bs : Bytes) : Option (List ReadEvent) :=
  match _h : readEvent width last bs with
  | none => none
  | some (e, rest) =>
    if e.content.closes then (if rest = [] then some [e] else none)
    else (readEvents width e.tick rest).map (e :: ·)
termination_by bs.length
decreasing_by exact readEvent_shortens _h

def headTag : Bytes := [0x4D, 0x54, 0x68, 0x64]
def trackTag : Bytes := [0x4D, 0x54, 0x72, 0x6B]

def readTracks (width : Nat) : Nat → Bytes → Option (List (List ReadEvent) × Bytes)
  | 0, bs => some ([], bs)
  | n + 1, bs => do
    let (payload, bs) ← readChunk trackTag bs
    let events ← readEvents width 0 payload
    let (tracks, rest) ← readTracks width n bs
    some (events :: tracks, rest)

/-- A file from its first byte to its last. -/
def readFile (width : Nat) (bs : Bytes) : Option ReadFile := do
  let (head, bs) ← readChunk headTag bs
  let (format, head) ← readNumber 2 head
  let (count, head) ← readNumber 2 head
  let (division, head) ← readNumber 2 head
  let (tracks, rest) ← readTracks width count bs
  if head = [] ∧ rest = [] then some ⟨format, count, division, tracks⟩ else none

end Partitura.Midi
