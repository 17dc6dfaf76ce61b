import Partitura.Midi.Track
import Partitura.Performance.OfScore

/-!
# Performances as sequencer files

A file has a conductor track with tempos, meters, keys and remarks, and a track
for each part with its name, program, notes, modulations and the automation of
its instrument. Parts that ask for no channel get the next free-running one, the
drum channel being left out. A detuned note bends its channel, and the bend goes
back to the centre at its end unless another detuned note still sounds there.
-/

namespace Partitura.Midi

variable {α : Type} [Scalar α]

structure Settings where
  ticksPerBeat : Nat
  defaultPitch : Nat
  controllers : ControllerMap
deriving DecidableEq, Repr

def Settings.standard : Settings := ⟨480, Partitura.defaultPitch, .standard⟩

/-- The General MIDI program of an instrument, counted from zero. -/
def program? : DeviceKind → Option Nat
  | .synth => some 80
  | .monoSynth => some 38
  | .fmSynth => some 5
  | .amSynth => some 89
  | .duoSynth => some 81
  | .pluckSynth => some 24
  | .membraneSynth => some 116
  | .metalSynth => some 14
  | .noiseSynth => some 122
  | .sampler => some 0
  | _ => none

structure Clock (α : Type) where
  tempo : TempoMap α
  ticksPerBeat : Nat

namespace Clock

def tickAtBeat (c : Clock α) (beat : α) : Nat :=
  Scalar.word (Scalar.maxOf (Scalar.round (beat * Scalar.ofInt c.ticksPerBeat)) 0)

def tick (c : Clock α) (seconds : α) : Nat :=
  c.tickAtBeat (c.tempo.beatAtSeconds (Scalar.maxOf seconds 0))

end Clock

/-- The channel of percussion, which is given to no part that does not ask for it. -/
def drumChannel : Nat := 9

def skipDrums (next : Nat) : Nat := if next = drumChannel then next + 1 else next

/-- The channels of the parts; `next` is the first one not yet given out. -/
def assignChannels : Nat → List (PlayedPart α) → List Nat
  | _, [] => []
  | next, p :: rest =>
    match p.midiChannel with
    | some channel => channel :: assignChannels next rest
    | none => min (skipDrums next) 15 :: assignChannels (skipDrums next + 1) rest

def meterEvent (tick : Nat) (m : Meter) : TimedEvent := .meter tick m.numerator m.denominatorLog

def keyEvent (tick : Nat) (k : Key) : TimedEvent := .key tick k.midiBytes.1 k.midiBytes.2

def remarkMark : RemarkKind → Mark
  | .marker => .marker
  | .lyric => .lyric
  | .cue => .cue
  | .text => .text

def conductorEvents (p : Performance α) (clock : Clock α) : List TimedEvent :=
  (p.metadata.name.map fun name => TimedEvent.text 0 .trackName name).toList
    ++ [meterEvent 0 p.meter]
    ++ (p.key.map (keyEvent 0)).toList
    ++ p.tempo.segments.map (fun s => TimedEvent.tempo (clock.tickAtBeat s.beat) s.bpm)
    ++ p.meterChanges.map (fun c => meterEvent (clock.tick c.seconds) c.value)
    ++ p.keyChanges.map (fun c => keyEvent (clock.tick c.seconds) c.value)
    ++ p.remarks.map fun r => TimedEvent.text (clock.tick r.time) (remarkMark r.kind) r.text

/-- A controller value; what is not finite counts as zero. -/
def controlValue (x : α) : Nat :=
  if Scalar.isFinite x then Scalar.byte (Scalar.clampTo 0 127 (Scalar.round x)) else 0

/-- The value of an automated parameter: from 0 to 1 it is scaled, else taken as it is. -/
def automationValue (x : α) : Nat :=
  if 0 ≤ x ∧ x ≤ 1 then Scalar.byte (Scalar.round (x * 127)) else controlValue x

def noteVelocity (x : α) : Nat :=
  (max 1 (min 127 (Scalar.integer (Scalar.round (x * 127))))).toNat

def detuning? (n : PlayedNote α) : Option α := n.microtuning.filter fun c => !(c == 0)

def playedPitch (settings : Settings) (path : String) (p : PitchValue) : Outcome Nat :=
  match p.midi? with
  | some n => pure n
  | none => do
    Outcome.note (.warning path ("unresolvable pitch '" ++ p.text ++ "', using "
      ++ toString settings.defaultPitch))
    pure settings.defaultPitch

def modulationEvents (clock : Clock α) (path : String) (channel : Nat) (m : PlayedModulation α) :
    Outcome (List TimedEvent) :=
  let tick := clock.tick m.time
  match m.kind, m.controller with
  | .control, some controller =>
    pure [.send tick channel (.control controller (controlValue m.value))]
  | .control, none => do
    Outcome.note (.warning path "cc modulation without controller skipped")
    pure []
  | .pitchBend, _ => pure [.send tick channel (.bend (bendValue m.value))]
  | .aftertouch, _ => pure [.send tick channel (.pressure (controlValue m.value))]
  | .unknown _, _ => pure []

def noteTicks (clock : Clock α) (n : PlayedNote α) : Nat × Nat :=
  let start := clock.tick n.start
  (start, max (clock.tick n.stop) start)

def bendRange : α := 200

/-- The events of a note on a channel, unless it names its own. -/
def noteEvents (settings : Settings) (clock : Clock α) (partPath : String) (channel : Nat)
    (n : PlayedNote α) : Outcome (List TimedEvent) := do
  let path := partPath ++ "." ++ entryPath "notes" n.index
  let channel := n.channel.getD channel
  let (start, stop) := noteTicks clock n
  let pitches ← Outcome.collect (n.pitches.map (playedPitch settings (path ++ ".note")))
  let modulations ← Outcome.collect
    (n.modulations.map (modulationEvents clock (path ++ ".modulations") channel))
  let bend := (detuning? n).map fun cents =>
    TimedEvent.send start channel (.bend (bendValue (cents / bendRange)))
  pure (bend.toList
    ++ pitches.map (fun p => .send start channel (.noteOn p (noteVelocity n.velocity)))
    ++ modulations.flatten
    ++ pitches.map fun p => .send stop channel (.noteOff p))

structure BendSpan where
  channel : Nat
  start : Nat
  stop : Nat
  detuned : Bool
deriving DecidableEq, Repr

def bendSpan (clock : Clock α) (channel : Nat) (n : PlayedNote α) : BendSpan :=
  let (start, stop) := noteTicks clock n
  ⟨n.channel.getD channel, start, stop, (detuning? n).isSome⟩

/-- Whether a later detuned note that starts before this one stops sounds longer on its channel. -/
def outlastedBy (s : BendSpan) (later : List BendSpan) : Bool :=
  (later.takeWhile fun t => decide (t.start < s.stop)).any fun t =>
    t.detuned && t.channel == s.channel && decide (s.stop < t.stop)

/-- For notes in the order of their starts, whether the bend goes back to the
centre when they stop. `held` is the latest end of an earlier detuned note on
each channel. -/
def recentres (held : List Nat) : List BendSpan → List Bool
  | [] => []
  | s :: later =>
    let slot := s.channel % 16
    let longest := held.getD slot 0
    let centred := s.detuned && !decide (s.stop < longest) && !outlastedBy s later
    centred :: recentres (if s.detuned then held.set slot (max longest s.stop) else held) later

def recentreEvent (s : BendSpan) (centred : Bool) : List TimedEvent :=
  if centred then [.send s.stop s.channel (.bend bendCentre)] else []

def automationEvent (settings : Settings) (clock : Clock α) (kind : DeviceKind) (channel : Nat)
    (e : PlayedAutomation α) : Outcome (List TimedEvent) :=
  match settings.controllers.lookup kind e.parameter with
  | some controller =>
    pure [.send (clock.tick e.time) channel (.control controller (automationValue e.value))]
  | none => do
    Outcome.note (.info ("automation." ++ e.parameter) ("no controller mapped for '"
      ++ e.parameter ++ "' on " ++ kind.text ++ ", skipped"))
    pure []

def concerns (instrument : PlacedDevice α) (e : PlayedAutomation α) : Bool :=
  e.node.isNone || e.node == instrument.node

def partProgram (path : String) (kind : DeviceKind) : Outcome Nat :=
  match program? kind with
  | some n => pure n
  | none => do
    Outcome.note (.warning (path ++ ".synth") ("no General MIDI program for '" ++ kind.text
      ++ "', using program 0"))
    pure 0

def singlePass (path : String) (p : PlayedPart α) : Outcome Unit :=
  match p.repetition with
  | .endless _ =>
    Outcome.note (.info (path ++ ".loop") "infinite loop written as a single pass")
  | _ => pure ()

def partEvents (settings : Settings) (clock : Clock α) (perf : Performance α) (i : Nat)
    (p : PlayedPart α) (channel : Nat) : Outcome (List TimedEvent) := do
  let path := entryPath "sequences" i
  let program ← partProgram path p.instrument.kind
  singlePass path p
  let notes := sortByTime PlayedNote.start p.expandedNotes
  let spans := notes.map (bendSpan clock channel)
  let played ← Outcome.collect (notes.map (noteEvents settings clock path channel))
  let resets := List.zipWith recentreEvent spans (recentres (List.replicate 16 0) spans)
  let automation ← Outcome.collect
    ((perf.automation.filter (concerns p.instrument)).map
      (automationEvent settings clock p.instrument.kind channel))
  pure ([.text 0 .trackName p.label, .send 0 channel (.program program)]
    ++ (List.zipWith (· ++ ·) played resets).flatten
    ++ automation.flatten)

def fileHead (tracks ticksPerBeat : Nat) : Bytes :=
  textBytes "MThd" ++ big32 6 ++ big16 1 ++ big16 tracks ++ big16 ticksPerBeat

def tracks (settings : Settings) (p : Performance α) : Outcome (List (List TimedEvent)) := do
  let clock : Clock α := ⟨p.tempo, settings.ticksPerBeat⟩
  let parts ← Outcome.collect
    ((p.parts.zip (assignChannels 0 p.parts)).zipIdx.map fun (part, i) =>
      partEvents settings clock p i part.1 part.2)
  pure (conductorEvents p clock :: parts)

def file (ticksPerBeat : Nat) (tracks : List (List TimedEvent)) : Bytes :=
  fileHead tracks.length ticksPerBeat
    ++ tracks.flatMap fun events => chunk (textBytes "MTrk") (trackPayload events)

def encode (settings : Settings) (p : Performance α) : Outcome Bytes := do
  pure (file settings.ticksPerBeat (← tracks settings p))

end Partitura.Midi
