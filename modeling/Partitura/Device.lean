import Partitura.Text.Blank

/-!
# Kinds of devices

A device is an instrument, an effect, a modulator or a sink. Its kind is written
as a name; letters are compared without regard to case, and everything but ASCII
letters and digits is skipped. A name that means no known kind is kept as it is.
-/

namespace Partitura

/-- The ASCII letters and digits of a text, in lower case. -/
def nameKey (s : String) : String :=
  String.ofList ((s.toList.filter Char.isAlphanum).map Char.toLower)

inductive DeviceRole where
  | instrument | effect | modulator | sink | unknown
deriving DecidableEq, Repr

def DeviceRole.name : DeviceRole → String
  | .instrument => "Instrument"
  | .effect => "Effect"
  | .modulator => "Modulator"
  | .sink => "Sink"
  | .unknown => "Unknown"

inductive DeviceKind where
  | synth | monoSynth | fmSynth | amSynth | duoSynth | pluckSynth | membraneSynth | metalSynth
  | noiseSynth | sampler
  | reverb | delay | pingPongDelay | distortion | chorus | phaser | tremolo | filter | compressor
  | bitCrusher
  | lfo
  | master
  | unknown (name : String)
deriving DecidableEq, Repr

namespace DeviceKind

def names : List (DeviceKind × List String) :=
  [(synth, ["synth", "polysynth", "basicsynth"]), (monoSynth, ["monosynth", "mono", "bass"]),
   (fmSynth, ["fmsynth", "fm"]), (amSynth, ["amsynth", "am"]), (duoSynth, ["duosynth", "duo"]),
   (pluckSynth, ["plucksynth", "pluck"]),
   (membraneSynth, ["membranesynth", "membrane", "kick"]), (metalSynth, ["metalsynth", "metal"]),
   (noiseSynth, ["noisesynth", "noise"]), (sampler, ["sampler", "sample"]),
   (reverb, ["reverb", "freeverb", "jcreverb"]), (delay, ["delay", "feedbackdelay"]),
   (pingPongDelay, ["pingpongdelay", "pingpong"]), (distortion, ["distortion", "overdrive"]),
   (chorus, ["chorus"]), (phaser, ["phaser"]), (tremolo, ["tremolo"]),
   (filter, ["filter", "autofilter", "lowpass"]), (compressor, ["compressor", "limiter"]),
   (bitCrusher, ["bitcrusher", "crusher"]), (lfo, ["lfo"]),
   (master, ["master", "destination", "output"])]

def parse (s : String) : DeviceKind :=
  match names.find? fun entry => entry.2.contains (nameKey s) with
  | some entry => entry.1
  | none => unknown s

def text : DeviceKind → String
  | synth => "synth"
  | monoSynth => "monoSynth"
  | fmSynth => "fmSynth"
  | amSynth => "amSynth"
  | duoSynth => "duoSynth"
  | pluckSynth => "pluckSynth"
  | membraneSynth => "membraneSynth"
  | metalSynth => "metalSynth"
  | noiseSynth => "noiseSynth"
  | sampler => "sampler"
  | reverb => "reverb"
  | delay => "delay"
  | pingPongDelay => "pingPongDelay"
  | distortion => "distortion"
  | chorus => "chorus"
  | phaser => "phaser"
  | tremolo => "tremolo"
  | filter => "filter"
  | compressor => "compressor"
  | bitCrusher => "bitCrusher"
  | lfo => "lfo"
  | master => "master"
  | unknown name => name

def role : DeviceKind → DeviceRole
  | synth | monoSynth | fmSynth | amSynth | duoSynth | pluckSynth | membraneSynth | metalSynth
  | noiseSynth | sampler => .instrument
  | reverb | delay | pingPongDelay | distortion | chorus | phaser | tremolo | filter | compressor
  | bitCrusher => .effect
  | lfo => .modulator
  | master => .sink
  | unknown _ => .unknown

def isEffect (k : DeviceKind) : Bool := k.role == .effect

def isKnown : DeviceKind → Bool
  | unknown _ => false
  | _ => true

def unnamed : DeviceKind := unknown ""

instance : Inhabited DeviceKind := ⟨unnamed⟩

end DeviceKind

inductive ModulationKind where
  | control | pitchBend | aftertouch
  | unknown (name : String)
deriving DecidableEq, Repr

namespace ModulationKind

def names : List (ModulationKind × List String) :=
  [(control, ["cc", "controlchange", "controller"]), (pitchBend, ["pitchbend", "bend"]),
   (aftertouch, ["aftertouch", "channelpressure", "pressure"])]

def parse (s : String) : ModulationKind :=
  match names.find? fun entry => entry.2.contains (nameKey s) with
  | some entry => entry.1
  | none => unknown s

def text : ModulationKind → String
  | control => "cc"
  | pitchBend => "pitchBend"
  | aftertouch => "aftertouch"
  | unknown name => name

def isKnown : ModulationKind → Bool
  | unknown _ => false
  | _ => true

def unnamed : ModulationKind := unknown ""

end ModulationKind

end Partitura
