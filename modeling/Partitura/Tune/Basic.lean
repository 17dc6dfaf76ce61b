import Partitura.Music.Key
import Partitura.Music.Meter
import Partitura.Tune.Length

/-!
# Tunes and their text

A tune has a header and voices. A voice is a row of notes, rests, changes of
meter, key or tempo, bars and line breaks, and each of them has a text of its
own. The text of a tune is the lines of its header and then its voices.
-/

namespace Partitura

inductive Loudness where
  | pp | p | mp | mf | f | ff
deriving DecidableEq, Repr

namespace Loudness

def ofVelocity {α : Type} [Scalar α] (v : α) : Loudness :=
  if 0.9 ≤ v then ff
  else if 0.75 ≤ v then f
  else if 0.6 ≤ v then mf
  else if 0.45 ≤ v then mp
  else if 0.3 ≤ v then p
  else pp

def text : Loudness → String
  | pp => "pp"
  | p => "p"
  | mp => "mp"
  | mf => "mf"
  | f => "f"
  | ff => "ff"

end Loudness

inductive Ornament where
  | loudness (level : Loudness)
  | staccato | accent | tenuto | marcato | fermata | slide | trill | emphasis
deriving DecidableEq, Repr

namespace Ornament

def ofArticulation? (s : String) : Option Ornament :=
  match Text.lower (Text.trim s) with
  | "staccato" => some staccato
  | "accent" => some accent
  | "tenuto" => some tenuto
  | "marcato" => some marcato
  | "fermata" => some fermata
  | _ => none

def text : Ornament → String
  | loudness level => "!" ++ level.text ++ "!"
  | staccato => "."
  | accent => "!accent!"
  | tenuto => "!tenuto!"
  | marcato => "!marcato!"
  | fermata => "!fermata!"
  | slide => "!slide!"
  | trill => "!trill!"
  | emphasis => "!>!"

end Ornament

structure Head where
  accidental : Option Accidental
  letter : Letter
  octave : Int
deriving DecidableEq, Repr

def Accidental.mark : Accidental → String
  | doubleSharp => "^^"
  | sharp => "^"
  | natural => "="
  | flat => "_"
  | doubleFlat => "__"

/-- The letter of an octave: capitals up to octave 4 with a comma for each one below 3,
small letters from octave 5 on with an apostrophe for each one above 4. -/
def octaveText (letter : Letter) (octave : Int) : String :=
  if 5 ≤ octave then
    letter.upper.toLower.toString ++ String.ofList (List.replicate (octave - 4).toNat '\'')
  else letter.upper.toString ++ String.ofList (List.replicate (3 - octave).toNat ',')

def Head.text (h : Head) : String :=
  (h.accidental.map Accidental.mark).getD "" ++ octaveText h.letter h.octave

structure Token where
  remarks : List String
  ornaments : List Ornament
  heads : List Head
  length : Length
  tie : Bool
deriving DecidableEq, Repr

/-- A text inside double quotes, in which it cannot have any. -/
def plainQuoted (s : String) : String := Text.replaceChar '"' '\'' s

def headsText (heads : List Head) : String :=
  let heads := heads.map Head.text
  match heads with
  | [] => ""
  | [h] => h
  | hs => "[" ++ String.join hs ++ "]"

def Token.text (t : Token) : String :=
  String.join (t.remarks.map fun r => "\"^" ++ plainQuoted r ++ "\"")
    ++ String.join (t.ornaments.map Ornament.text)
    ++ headsText t.heads ++ t.length.text ++ (if t.tie then "-" else "")

inductive InlineField where
  | meter (m : Meter)
  | key (k : Key)
  | tempo (quartersPerMinute : Nat)
deriving DecidableEq, Repr

def InlineField.text : InlineField → String
  | meter m => "[M:" ++ m.text ++ "]"
  | key k => "[K:" ++ k.notated ++ "]"
  | tempo n => "[Q:1/4=" ++ toString n ++ "]"

inductive Element where
  | note (token : Token)
  | rest (length : Length)
  | field (f : InlineField)
  | barLine
  | finalBar
  | lineBreak
deriving DecidableEq, Repr

def Element.text : Element → String
  | note token => token.text
  | rest length => "z" ++ length.text
  | field f => f.text
  | barLine => "|"
  | finalBar => "|]"
  | lineBreak => "\n"

def elementsText (lineStart : Bool) : List Element → String
  | [] => ""
  | .lineBreak :: rest => "\n" ++ elementsText true rest
  | e :: rest => (if lineStart then "" else " ") ++ e.text ++ elementsText false rest

structure Voice where
  id : Nat
  elements : List Element
deriving DecidableEq, Repr

def Voice.text (v : Voice) : String := elementsText true v.elements

structure VoiceName where
  id : Nat
  name : String
deriving DecidableEq, Repr

structure Header where
  reference : Nat
  title : String
  composer : Option String
  notes : Option String
  source : Option String
  meter : Meter
  tempo : Nat
  key : Key
  voiceNames : List VoiceName
deriving DecidableEq, Repr

def VoiceName.line (v : VoiceName) : String :=
  "V:" ++ toString v.id ++ " name=\"" ++ plainQuoted v.name ++ "\""

def voiceLines (names : List VoiceName) : List String :=
  if names.isEmpty then []
  else ("%%score " ++ " ".intercalate (names.map fun v => toString v.id))
    :: names.map VoiceName.line

def Header.lines (h : Header) : List String :=
  let optional := fun (field : String) (s : Option String) => (s.map (field ++ ·)).toList
  ["X:" ++ toString h.reference, "T:" ++ h.title]
    ++ optional "C:" h.composer ++ optional "N:" h.notes ++ optional "S:" h.source
    ++ ["M:" ++ h.meter.text, "L:1/4", "Q:1/4=" ++ toString h.tempo]
    ++ voiceLines h.voiceNames ++ ["K:" ++ h.key.notated]

structure Tune where
  header : Header
  voices : List Voice
deriving DecidableEq, Repr

def Voice.lines (several : Bool) (v : Voice) : List String :=
  (if several then ["V:" ++ toString v.id] else []) ++ [v.text]

def Tune.lines (t : Tune) : List String :=
  t.header.lines ++ t.voices.flatMap (Voice.lines (decide (1 < t.voices.length)))

def Tune.text (t : Tune) : String := String.join (t.lines.map (· ++ "\n"))

end Partitura
