import Partitura.Score.Basic

/-!
# Checking scores

Errors keep a score from being performed; warnings do not. Each finding names the
place it speaks of, and they come in the order of the score.
-/

namespace Partitura

inductive Finding where
  | error (message : String)
  | warning (message : String)
deriving DecidableEq, Repr

namespace Finding

def error? : Finding → Option String
  | error m => some m
  | warning _ => none

def warning? : Finding → Option String
  | warning m => some m
  | error _ => none

end Finding

structure Report where
  success : Bool
  errors : List String
  warnings : List String
deriving DecidableEq, Repr

namespace Report

def ofFindings (findings : List Finding) : Report :=
  let errors := findings.filterMap Finding.error?
  ⟨errors.isEmpty, errors, findings.filterMap Finding.warning?⟩

def display (r : Report) : String :=
  toString r.errors.length ++ " error(s), " ++ toString r.warnings.length ++ " warning(s)"
    ++ String.join (r.errors.map ("\n  error: " ++ ·))
    ++ String.join (r.warnings.map ("\n  warning: " ++ ·))

def toJson {α : Type} (r : Report) : Json α :=
  .obj [("success", .bool r.success), ("errors", .arr (r.errors.map .str)),
    ("warnings", .arr (r.warnings.map .str))]

end Report

def findIf (condition : Bool) (finding : Finding) : List Finding :=
  if condition then [finding] else []

def entryPath (list : String) (i : Nat) : String := list ++ "[" ++ toString i ++ "]"

def inRange (lo hi : Int) (n : Int) : Bool := decide (lo ≤ n ∧ n ≤ hi)

def eachEntry {β : Type} (items : List β) (check : Nat → β → List Finding) : List Finding :=
  items.zipIdx.flatMap fun (item, i) => check i item

variable {α : Type} [Scalar α]

namespace Score

def checkTempo (s : Score α) : List Finding :=
  match s.bpm with
  | none => [.error "missing bpm"]
  | some bpm =>
    if !Scalar.isPositive bpm then
      [.error ("bpm: must be a positive number, got " ++ Scalar.plainText bpm)]
    else findIf (decide (bpm < 20) || decide (400 < bpm))
      (.warning ("bpm: " ++ Scalar.plainText bpm ++ " is outside 20-400"))

def checkHeader (s : Score α) : List Finding :=
  s.rejected.map .error
    ++ findIf s.format.isNone (.error "missing formatId")
    ++ findIf s.version.isNone (.error "missing version")
    ++ s.checkTempo
    ++ eachEntry s.tempoMap fun i p =>
      findIf (!Scalar.isPositive p.bpm) (.warning (entryPath "tempoMap" i ++ ": bpm "
        ++ Scalar.plainText p.bpm ++ " is not positive and will be ignored"))

def checkNode (s : Score α) (i : Nat) (n : GraphNode α) : List Finding :=
  let path := entryPath "audioGraph" i
  findIf ((s.graph.take i).any fun m => m.id == n.id)
      (.error (path ++ ": duplicate node id '" ++ n.id ++ "'"))
    ++ findIf (!n.kind.isKnown)
      (.warning (path ++ ": unrecognized node type '" ++ n.kind.text ++ "'"))

def checkConnection (s : Score α) (i : Nat) (c : Connection) : List Finding :=
  let path := entryPath "connections" i
  match c.endpoints? with
  | none => [.error (path ++ ": expected 2 endpoints, got " ++ toString c.ends.length)]
  | some (source, target) =>
    [source, target].flatMap fun id =>
      findIf (id != masterId && (s.node? id).isNone)
        (.warning (path ++ ": endpoint '" ++ id ++ "' not found in audioGraph"))

def checkSynth (s : Score α) (path : String) (p : Part α) : List Finding :=
  match p.synthRef, p.synth with
  | none, none => [.error (path ++ ": missing synth or synthRef")]
  | some _, some _ => [.warning (path ++ ": both synth and synthRef set, synthRef is used")]
  | some id, none =>
    findIf (s.node? id).isNone
      (.warning (path ++ ".synthRef: '" ++ id ++ "' names no audio graph node"))
  | none, some device =>
    findIf (!device.kind.isKnown)
      (.warning (path ++ ".synth: unrecognized node type '" ++ device.kind.text ++ "'"))

def checkEffect (s : Score α) (path : String) : EffectRef α → List Finding
  | .node id =>
    findIf (s.node? id).isNone (.warning (path ++ ": '" ++ id ++ "' names no audio graph node"))
  | .inline device =>
    findIf (!device.kind.isKnown)
      (.warning (path ++ ": unrecognized node type '" ++ device.kind.text ++ "'"))

end Score

def checkChannel (path : String) : Option Int → List Finding
  | none => []
  | some n =>
    findIf (!inRange 0 15 n) (.error (path ++ ": " ++ toString n ++ " is outside 0-15"))

def checkPitchValue (path : String) : PitchValue → List Finding
  | .midi n =>
    findIf (!inRange 0 127 n)
      (.warning (path ++ ": MIDI number " ++ toString n ++ " is outside 0-127"))
  | .name _ => []

def checkNotePitch (path : String) : Option NotePitch → List Finding
  | none => [.error (path ++ ": missing note")]
  | some (.chord []) => [.warning (path ++ ".note: empty chord")]
  | some pitch => pitch.pitches.flatMap (checkPitchValue (path ++ ".note"))

def checkVelocity (path : String) : Option α → List Finding
  | none => []
  | some v =>
    findIf (!(decide (0 ≤ v) && decide (v ≤ 1)))
      (.warning (path ++ ".velocity: " ++ Scalar.plainText v ++ " is outside 0-1"))

def checkModulation (path : String) (m : Modulation α) : List Finding :=
  match m.kind with
  | .unknown name => [.error (path ++ ": unknown modulation type '" ++ name ++ "'")]
  | .control =>
    match m.controller with
    | none => [.warning (path ++ ": cc without controller")]
    | some c =>
      findIf (!inRange 0 127 c)
        (.warning (path ++ ": controller " ++ toString c ++ " is outside 0-127"))
  | _ => []

def checkNote (path : String) (n : Note α) : List Finding :=
  findIf n.time.isNone (.error (path ++ ": missing time"))
    ++ findIf n.duration.isNone (.error (path ++ ": missing duration"))
    ++ checkNotePitch path n.note
    ++ checkVelocity path n.velocity
    ++ checkChannel (path ++ ".channel") n.channel
    ++ eachEntry n.modulations fun k m =>
      checkModulation (path ++ "." ++ entryPath "modulations" k) m

namespace Score

def checkPart (s : Score α) (i : Nat) (p : Part α) : List Finding :=
  let path := entryPath "sequences" i
  s.checkSynth path p
    ++ (eachEntry p.effects fun j e => s.checkEffect (path ++ "." ++ entryPath "effects" j) e)
    ++ checkChannel (path ++ ".midiChannel") p.midiChannel
    ++ (match p.looping, p.loopEnd with
      | .span _, none =>
        [.warning (path ++ ".loop: finite loop without loopEnd will play once")]
      | _, _ => [])
    ++ (match p.notes with
      | none => [.error (path ++ ": missing notes array")]
      | some notes =>
        eachEntry notes fun j n => checkNote (path ++ "." ++ entryPath "notes" j) n)

def findings (s : Score α) : List Finding :=
  s.checkHeader
    ++ eachEntry s.graph s.checkNode
    ++ eachEntry s.connections s.checkConnection
    ++ (match s.parts with
      | none => [.error "missing sequences"]
      | some parts => eachEntry parts s.checkPart)

/-- The report on a score; it succeeds when nothing is an error. -/
def check (s : Score α) : Report := .ofFindings s.findings

end Score

end Partitura
