import Partitura.Score.Basic
import Partitura.Script.Line
import Partitura.Script.Literal

/-!
# Definitions of synths

A definition has controls with their values and lines that compute a sound. An
instrument plays a note under an envelope, an effect mixes a sound with what it
makes of it, and a modulator writes a wave to a control bus. Options of a device
set the controls of the same name; a number inside an option that is an object
counts too, unless the name is an option itself, and `wet` stands for `mix`
where there is no `mix`.
-/

namespace Partitura.Script

inductive Purpose where
  | instrument | effect | modulator
deriving DecidableEq, Repr

structure Template (α : Type) where
  controls : List (String × α)
  body : List String

structure Definition (α : Type) where
  name : String
  purpose : Purpose
  template : Template α

variable {α : Type} [Scalar α]

/-- A number among the options, or inside one of them, of which the last counts. -/
def optionNumber? (options : Options α) (name : String) : Option α :=
  match (Sorted.get? name options).bind Json.scalar? with
  | some x => some x
  | none => options.reverse.findSome? fun e => (e.2.get? name).bind Json.scalar?

def controlNumber? (options : Options α) (name : String) : Option α :=
  match optionNumber? options name with
  | some x => some x
  | none => if name = "mix" then optionNumber? options "wet" else none

def typeName? (j : Json α) : Option String := (j.get? "type").bind Json.string?

def optionType? (options : Options α) (name : String) : Option String :=
  (Sorted.get? name options).bind typeName?

def ownType? (options : Options α) : Option String :=
  (Sorted.get? "type" options).bind Json.string?

namespace Template

def withOptions (t : Template α) (options : Options α) : Template α :=
  { t with controls := t.controls.map fun c => (c.1, (controlNumber? options c.1).getD c.2) }

def control? (t : Template α) (name : String) : Option α :=
  (t.controls.find? fun c => c.1 == name).map Prod.snd

def signature (t : Template α) : String :=
  "|" ++ ", ".intercalate (t.controls.map fun c => c.1 ++ " = " ++ numberText c.2) ++ "|"

end Template

def Purpose.wrap : Purpose → List String → List String
  | instrument, body =>
    "var env = EnvGen.kr(Env.adsr(attack, decay, sustain, release), gate, doneAction: 2);"
      :: body ++ ["Out.ar(out, Pan2.ar(sig * env * amp, pan));"]
  | effect, body =>
    "var sig = In.ar(in, 2);" :: body ++ ["Out.ar(out, XFade2.ar(sig, wet, mix * 2 - 1));"]
  | modulator, body => body

def Definition.lines (d : Definition α) : List Line :=
  .opening ("SynthDef(\\" ++ d.name ++ ", \x7b " ++ d.template.signature)
    :: (d.purpose.wrap d.template.body).map .plain ++ [.closing "\x7d).add;"]

/-! ## Waves -/

inductive Wave where
  | pulse | saw | triangle | sine
deriving DecidableEq, Repr

namespace Wave

/-- The wave that a name ends in; the names of all others mean a sine. -/
def ofName (name : String) : Wave :=
  let name := Text.lower name
  if Text.endsWith name "square" || Text.endsWith name "pulse" then pulse
  else if Text.endsWith name "sawtooth" || Text.endsWith name "saw" then saw
  else if Text.endsWith name "triangle" then triangle
  else sine

def sound : Wave → String
  | pulse => "Pulse.ar(freq)"
  | saw => "Saw.ar(freq)"
  | triangle => "LFTri.ar(freq)"
  | sine => "SinOsc.ar(freq)"

def control : Wave → String
  | pulse => "LFPulse.kr(frequency)"
  | saw => "LFSaw.kr(frequency)"
  | triangle => "LFTri.kr(frequency)"
  | sine => "SinOsc.kr(frequency)"

end Wave

/-! ## Instruments -/

structure Envelope (α : Type) where
  attack : α
  decay : α
  sustain : α
  release : α

def voiceControls (e : Envelope α) : List (String × α) :=
  [("out", 0), ("freq", 440), ("amp", 0.5), ("gate", 1), ("pan", 0), ("attack", e.attack),
   ("decay", e.decay), ("sustain", e.sustain), ("release", e.release)]

def voiceTemplate (e : Envelope α) (controls : List (String × α)) (body : List String) :
    Template α :=
  ⟨voiceControls e ++ controls, body⟩

def oscillatorLine (options : Options α) (wave : Wave) : String :=
  "var sig = " ++ (((optionType? options "oscillator").map Wave.ofName).getD wave).sound ++ ";"

def noiseName (options : Options α) : String :=
  match optionType? options "noise" with
  | some "pink" => "PinkNoise"
  | some "brown" => "BrownNoise"
  | _ => "WhiteNoise"

def instrumentPreset? (options : Options α) : DeviceKind → Option (Template α)
  | .synth =>
    some (voiceTemplate ⟨0.005, 0.1, 0.3, 1⟩ [] [oscillatorLine options .triangle])
  | .monoSynth =>
    some (voiceTemplate ⟨0.005, 0.1, 0.9, 1⟩
      [("baseFrequency", 200), ("octaves", 3), ("rq", 0.2)]
      [oscillatorLine options .pulse,
       "sig = RLPF.ar(sig, (baseFrequency * (2 ** (octaves * env))).clip(20, 20000), rq);"])
  | .fmSynth =>
    some (voiceTemplate ⟨0.01, 0.01, 1, 0.5⟩ [("harmonicity", 3), ("modulationIndex", 10)]
      ["var sig = SinOsc.ar(freq + SinOsc.ar(freq * harmonicity, 0, freq * modulationIndex));"])
  | .amSynth =>
    some (voiceTemplate ⟨0.01, 0.01, 1, 0.5⟩ [("harmonicity", 3)]
      ["var sig = SinOsc.ar(freq) * SinOsc.ar(freq * harmonicity).range(0, 1);"])
  | .duoSynth =>
    some (voiceTemplate ⟨0.01, 0, 1, 0.5⟩
      [("harmonicity", 1.5), ("vibratoAmount", 0.5), ("vibratoRate", 5)]
      ["var sig = Mix([Saw.ar(freq), Saw.ar(freq * harmonicity)]) * 0.5;",
       "sig = sig * SinOsc.kr(vibratoRate, 0, vibratoAmount * 0.1, 1);"])
  | .pluckSynth =>
    some (voiceTemplate ⟨0.001, 0.1, 1, 1⟩
      [("attackNoise", 1), ("dampening", 4000), ("resonance", 0.7)]
      ["var sig = Pluck.ar(WhiteNoise.ar(attackNoise), Impulse.kr(0), 0.05, freq.reciprocal, "
         ++ "resonance * 10, 0.5);",
       "sig = LPF.ar(sig, dampening);"])
  | .membraneSynth =>
    some (voiceTemplate ⟨0.001, 0.4, 0.01, 1.4⟩ [("pitchDecay", 0.05), ("octaves", 10)]
      ["var sig = SinOsc.ar(XLine.kr((freq * (2 ** octaves)).min(18000), freq, pitchDecay));"])
  | .metalSynth =>
    some (voiceTemplate ⟨0.001, 1.4, 0, 0.2⟩ [("harmonicity", 5.1), ("resonance", 4000)]
      ["var sig = Mix(SinOsc.ar(freq * [1, 1.483, 1.932, 2.546, 2.63, 3.897] * "
         ++ "(harmonicity / 5.1))) / 6;",
       "sig = HPF.ar(sig, resonance);"])
  | .noiseSynth =>
    some (voiceTemplate ⟨0.005, 0.1, 0, 1⟩ [] ["var sig = " ++ noiseName options ++ ".ar;"])
  | .sampler =>
    some (voiceTemplate ⟨0, 0, 1, 1⟩ [("bufnum", 0), ("rootFreq", 261.626)]
      ["var sig = PlayBuf.ar(1, bufnum, BufRateScale.kr(bufnum) * freq / rootFreq);"])
  | _ => none

def instrumentTemplate? (kind : DeviceKind) (options : Options α) : Option (Template α) :=
  (instrumentPreset? options kind).map fun t => t.withOptions options

def genericTemplate (options : Options α) : Template α :=
  (voiceTemplate ⟨0.01, 0.1, 0.8, 0.5⟩ [] ["var sig = SinOsc.ar(freq);"]).withOptions options

/-! ## Effects and modulators -/

def filterName (options : Options α) : String :=
  match ownType? options with
  | some "highpass" => "RHPF"
  | some "bandpass" => "BPF"
  | _ => "RLPF"

def echoDecay : String := "delayTime * (0.001.log / feedback.clip(0.01, 0.99).log)"

def effectTemplateOf (mix : α) (controls : List (String × α)) (wet : String) : Template α :=
  ⟨[("in", 0), ("out", 0), ("mix", mix)] ++ controls, ["var wet = " ++ wet ++ ";"]⟩

def effectPreset? (options : Options α) : DeviceKind → Option (Template α)
  | .reverb =>
    some (effectTemplateOf 0.33 [("room", 0.8), ("damp", 0.5)]
      "FreeVerb2.ar(sig[0], sig[1], 1, room, damp)")
  | .delay =>
    some (effectTemplateOf 0.5 [("delayTime", 0.25), ("feedback", 0.5)]
      ("CombC.ar(sig, 2, delayTime, " ++ echoDecay ++ ")"))
  | .pingPongDelay =>
    some (effectTemplateOf 0.5 [("delayTime", 0.25), ("feedback", 0.5)]
      ("CombC.ar(sig.reverse, 2, [delayTime, delayTime * 2], " ++ echoDecay ++ ")"))
  | .distortion =>
    some (effectTemplateOf 1 [("distortion", 0.4)] "(sig * (1 + (distortion * 20))).tanh")
  | .chorus =>
    some (effectTemplateOf 0.5 [("frequency", 1.5), ("delayTime", 3.5), ("depth", 0.7)]
      ("DelayC.ar(sig, 0.05, SinOsc.kr(frequency, [0, 0.5pi], depth * delayTime * 0.0005, "
        ++ "delayTime * 0.001))"))
  | .phaser =>
    some (effectTemplateOf 0.5 [("frequency", 0.5), ("octaves", 3), ("baseFrequency", 350)]
      ("AllpassC.ar(sig, 0.01, SinOsc.kr(frequency).exprange(baseFrequency, "
        ++ "baseFrequency * (2 ** octaves)).reciprocal, 0)"))
  | .tremolo =>
    some (effectTemplateOf 1 [("frequency", 10), ("depth", 0.5)]
      "sig * SinOsc.kr(frequency).range(1 - depth, 1)")
  | .filter =>
    some (effectTemplateOf 1 [("frequency", 350), ("rq", 1)]
      (filterName options ++ ".ar(sig, frequency, rq)"))
  | .compressor =>
    some (effectTemplateOf 1
      [("threshold", -24), ("ratio", 12), ("attack", 0.003), ("release", 0.25)]
      "Compander.ar(sig, sig, threshold.dbamp, 1, ratio.reciprocal, attack, release)")
  | .bitCrusher => some (effectTemplateOf 1 [("bits", 4)] "sig.round(0.5 ** bits)")
  | _ => none

def effectTemplate? (kind : DeviceKind) (options : Options α) : Option (Template α) :=
  (effectPreset? options kind).map fun t => t.withOptions options

def modulatorTemplate (options : Options α) : Template α :=
  let wave := Wave.ofName ((ownType? options).getD "sine")
  Template.withOptions ⟨[("out", 0), ("frequency", 1), ("min", 0), ("max", 1)],
    ["Out.kr(out, " ++ wave.control ++ ".range(min, max));"]⟩ options

end Partitura.Script
