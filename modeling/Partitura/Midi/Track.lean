import Partitura.Midi.Bytes
import Partitura.Number.Scalar

/-!
# Tracks of sequencer files

Events are put into a track at absolute ticks and in any order. The payload holds
them in the order of their ticks, those of one tick in the order in which they
were put in, each with the ticks that have gone by since the one before, and ends
with the event that closes a track.
-/

namespace Partitura.Midi

inductive Message where
  | noteOn (pitch velocity : Nat)
  | noteOff (pitch : Nat)
  | control (controller value : Nat)
  | program (number : Nat)
  | pressure (value : Nat)
  | bend (value : Nat)
deriving DecidableEq, Repr

inductive Mark where
  | text | trackName | lyric | marker | cue | trackEnd | tempo | meter | key
deriving DecidableEq, Repr

def Mark.code : Mark → Nat
  | text => 0x01
  | trackName => 0x03
  | lyric => 0x05
  | marker => 0x06
  | cue => 0x07
  | trackEnd => 0x2F
  | tempo => 0x51
  | meter => 0x58
  | key => 0x59

inductive Event where
  | channel (number : Nat) (message : Message)
  | mark (kind : Mark) (data : Bytes)
deriving DecidableEq, Repr

structure TimedEvent where
  tick : Nat
  event : Event
deriving DecidableEq, Repr

def sevenBits (n : Nat) : UInt8 := UInt8.ofNat (n % 128)

def status (kind channel : Nat) : UInt8 := UInt8.ofNat (kind + channel % 16)

def bendCentre : Nat := 8192

def Message.bytes (channel : Nat) : Message → Bytes
  | noteOn pitch velocity => [status 0x90 channel, sevenBits pitch, sevenBits velocity]
  | noteOff pitch => [status 0x80 channel, sevenBits pitch, 0]
  | control controller value => [status 0xB0 channel, sevenBits controller, sevenBits value]
  | program number => [status 0xC0 channel, sevenBits number]
  | pressure value => [status 0xD0 channel, sevenBits value]
  | bend value =>
    let value := min value 0x3FFF
    [status 0xE0 channel, sevenBits value, sevenBits (value / 128)]

/-- An event with a kind and data of its own; the length counts 32 bits. -/
def markBytes (code : Nat) (data : Bytes) : Bytes :=
  [0xFF, UInt8.ofNat code] ++ quantity (data.length % 4294967296) ++ data

def Event.bytes : Event → Bytes
  | channel number message => message.bytes number
  | mark kind data => markBytes kind.code data

def deltas (last : Nat) : List (Nat × Bytes) → Bytes
  | [] => []
  | (tick, data) :: rest => quantity (tick - last) ++ data ++ deltas tick rest

def inOrder (events : List (Nat × Bytes)) : List (Nat × Bytes) :=
  events.mergeSort fun a b => decide (a.1 ≤ b.1)

def payload (events : List (Nat × Bytes)) : Bytes :=
  deltas 0 (inOrder events) ++ quantity 0 ++ markBytes Mark.trackEnd.code []

def trackPayload (events : List TimedEvent) : Bytes :=
  payload (events.map fun e => (e.tick, e.event.bytes))

namespace TimedEvent

def send (tick channel : Nat) (message : Message) : TimedEvent := ⟨tick, .channel channel message⟩

def text (tick : Nat) (kind : Mark) (s : String) : TimedEvent := ⟨tick, .mark kind (textBytes s)⟩

variable {α : Type} [Scalar α]

/-- A tempo as the microseconds of a quarter note, in 24 bits and not zero. -/
def tempo (tick : Nat) (bpm : α) : TimedEvent :=
  let micros := Scalar.word (Scalar.clampTo 1 16777215 (Scalar.round (60000000 / bpm)))
  ⟨tick, .mark .tempo (big24 micros)⟩

def meter (tick numerator denominatorLog : Nat) : TimedEvent :=
  ⟨tick, .mark .meter [UInt8.ofNat numerator, UInt8.ofNat denominatorLog, 0x18, 0x08]⟩

def key (tick fifths minor : Nat) : TimedEvent :=
  ⟨tick, .mark .key [UInt8.ofNat fifths, UInt8.ofNat minor]⟩

end TimedEvent

/-- A bend from -1 to 1 as a number of 14 bits; what is not finite does not bend. -/
def bendValue {α : Type} [Scalar α] (amount : α) : Nat :=
  let amount := if Scalar.isFinite amount then Scalar.clampTo (-1) 1 amount else 0
  let centre : α := Scalar.ofInt bendCentre
  Scalar.word (Scalar.clampTo 0 16383 (Scalar.round (centre + amount * centre)))

end Partitura.Midi
