import Partitura.Music.Document
import Partitura.Tune.OfPerformance

/-!
# Tunes in documents

An alternative with data is written as an object with its name as the only key,
one without data as its name.
-/

namespace Partitura

variable {α : Type} [Scalar α]

open Json

def Length.toJson (l : Length) : Json α :=
  .obj [("num", .int l.num), ("den", .int l.den), ("snapped", .bool l.snapped)]

def Loudness.toJson : Loudness → Json α
  | .pp => .str "Pp"
  | .p => .str "P"
  | .mp => .str "Mp"
  | .mf => .str "Mf"
  | .f => .str "F"
  | .ff => .str "Ff"

def Ornament.toJson : Ornament → Json α
  | .loudness level => .obj [("Dynamic", level.toJson)]
  | .staccato => .str "Staccato"
  | .accent => .str "Accent"
  | .tenuto => .str "Tenuto"
  | .marcato => .str "Marcato"
  | .fermata => .str "Fermata"
  | .slide => .str "Slide"
  | .trill => .str "Trill"
  | .emphasis => .str "Emphasis"

def Head.toJson (h : Head) : Json α :=
  .obj [("accidental", optionToJson Accidental.toJson h.accidental), ("name", h.letter.toJson),
    ("octave", .int h.octave)]

def Token.toJson (t : Token) : Json α :=
  .obj [("annotations", .arr (t.remarks.map .str)),
    ("decorations", .arr (t.ornaments.map Ornament.toJson)),
    ("heads", .arr (t.heads.map Head.toJson)), ("length", t.length.toJson), ("tie", .bool t.tie)]

def InlineField.toJson : InlineField → Json α
  | .meter m => .obj [("Meter", m.toJson)]
  | .key k => .obj [("Key", k.toJson)]
  | .tempo n => .obj [("Tempo", .int n)]

def Element.toJson : Element → Json α
  | .note token => .obj [("Note", token.toJson)]
  | .rest length => .obj [("Rest", length.toJson)]
  | .field f => .obj [("Field", f.toJson)]
  | .barLine => .str "BarLine"
  | .finalBar => .str "FinalBar"
  | .lineBreak => .str "LineBreak"

def Voice.toJson (v : Voice) : Json α :=
  .obj [("id", .int v.id), ("elements", .arr (v.elements.map Element.toJson))]

def VoiceName.toJson (v : VoiceName) : Json α := .obj [("id", .int v.id), ("name", .str v.name)]

def Header.toJson (h : Header) : Json α :=
  .obj [("reference", .int h.reference), ("title", .str h.title),
    ("composer", optionToJson .str h.composer), ("notes", optionToJson .str h.notes),
    ("source", optionToJson .str h.source), ("meter", h.meter.toJson), ("tempo", .int h.tempo),
    ("key", h.key.toJson), ("voice_defs", .arr (h.voiceNames.map VoiceName.toJson))]

def Tune.toJson (t : Tune) : Json α :=
  .obj [("header", t.header.toJson), ("voices", .arr (t.voices.map Voice.toJson))]

def TuneSettings.read : Json α → Except DecodeError TuneSettings :=
  asRecord "AbcParams" ["reference", "bars_per_line", "source"] [] standard
    (fun d name j => match name with
      | "reference" => do .ok { d with reference := ← j.asNat32 }
      | "bars_per_line" => do .ok { d with barsPerLine := ← j.asNat64 }
      | "source" => do .ok { d with source := ← j.asOption asString }
      | _ => .ok d)
    .ok

def TuneSettings.toJson (s : TuneSettings) : Json α :=
  .obj [("reference", .int s.reference), ("bars_per_line", .int s.barsPerLine),
    ("source", optionToJson .str s.source)]

end Partitura
