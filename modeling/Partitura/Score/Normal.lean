import Partitura.Json.Printer
import Partitura.Score.Document

/-!
# Bringing any input into the form of a score

Input comes in several shapes: a document in the score format, an object of
tracks, a list of parts, or a bare list of notes. The shapes are tried in that
order, and anything else becomes an empty score, so every value has a normal
form. Outside the score format, numeric times and lengths count beats of four to
the bar, entries that cannot be read are left out, and parts without an
instrument play through the first one of the graph.
-/

namespace Partitura

variable {α : Type} [Scalar α]

def defaultSynthId : String := "synth"

def defaultPartLabel : String := "sequence"

abbrev Fields (α : Type) := List (String × Json α)

def firstOf (fields : Fields α) (keys : List String) : Option (Json α) :=
  keys.findSome? fun k => (Json.lookup k fields).filter fun v => !v.isNull

def firstText (fields : Fields α) (keys : List String) : Option String :=
  keys.findSome? fun k => (Json.lookup k fields).bind Json.string?

def readable {β : Type} (read : Json α → Except DecodeError β) (value : Option (Json α)) :
    List β :=
  ((value.bind Json.array?).getD []).filterMap fun item => (read item).toOption

/-- Beats as a text of bars of four, beats and ticks. -/
def barsAndBeats (beats : α) : WrittenTime α :=
  let beats := Scalar.maxOf beats 0
  let bars := Scalar.floor (beats / 4)
  let beat := beats - bars * 4
  .text (Scalar.plainText bars ++ ":" ++ Scalar.plainText beat ++ ":0")

def noteValue (beats : α) : WrittenTime α :=
  .text (
    if beats == 0.25 then "16n"
    else if beats == 0.5 then "8n"
    else if beats == 1 then "4n"
    else if beats == 2 then "2n"
    else if beats == 4 then "1n"
    else Scalar.plainText beats ++ "n")

def plainTime (j : Json α) : Option (WrittenTime α) :=
  match j with
  | .str s => some (.text s)
  | j => j.scalar?.map .seconds

def beatTime (ofBeats : α → WrittenTime α) (j : Json α) : Option (WrittenTime α) :=
  match j with
  | .str s => some (.text s)
  | j => j.scalar?.map ofBeats

/-- A velocity above one counts in steps of 1/127. -/
def velocityOf (v : α) : α := Scalar.clampTo 0 1 (if 1 < v then v / 127 else v)

def pitchOf (j : Json α) : Option PitchValue :=
  match j with
  | .str s => some (.name s)
  | j => j.scalar?.map fun x => .midi (Scalar.integer (Scalar.round x))

def notePitchOf : Json α → Option NotePitch
  | .arr items => some (.chord (items.filterMap pitchOf))
  | j => (pitchOf j).map .single

def noteOf (fields : Fields α) : Note α where
  note := (firstOf fields ["note", "pitch", "pitches"]).bind notePitchOf
  time := (firstOf fields ["time", "start"]).bind (beatTime barsAndBeats)
  duration := (firstOf fields ["duration", "length", "dur"]).bind (beatTime noteValue)
  velocity := ((firstOf fields ["velocity", "volume", "vel"]).bind Json.scalar?).map velocityOf
  articulation := firstText fields ["articulation"]
  microtuning := (firstOf fields ["microtuning", "cents"]).bind Json.scalar?
  channel := (Json.lookup "channel" fields).bind Json.int64?
  modulations := readable Modulation.read (Json.lookup "modulations" fields)

def notesOf (j : Json α) : List (Note α) :=
  (j.array?.getD []).filterMap fun item => item.object?.map noteOf

def inlineDeviceOf (j : Json α) : Option (InlineDevice α) := do
  let fields ← j.object?
  let kind ← firstText fields ["type", "kind", "name"]
  let options := ((Json.lookup "options" fields).bind Json.object?).getD []
  some ⟨DeviceKind.parse kind, Sorted.ofList options⟩

def connectionEnd : Json α → String
  | .str s => s
  | j => j.compact

def connectionOf : Json α → Option Connection
  | .arr items => some ⟨items.map connectionEnd⟩
  | .obj fields => do
    let source ← firstText fields ["from", "source"]
    let target ← firstText fields ["to", "target"]
    some (.between source target)
  | _ => none

def effectOf : Json α → Option (EffectRef α)
  | .str id => some (.node id)
  | j => (inlineDeviceOf j).map .inline

def synthOf (graph : List (GraphNode α)) : Option (Json α) → Option String × Option (InlineDevice α)
  | some (.str s) =>
    if graph.any fun n => n.id == s then (some s, none)
    else (none, some ⟨DeviceKind.parse s, []⟩)
  | some (.obj fields) => (none, inlineDeviceOf (.obj fields))
  | _ => (none, none)

def loopOf : Option (Json α) → LoopSetting α
  | some (.bool on) => .flag on
  | some j => ((plainTime j).map .span).getD (.flag false)
  | none => .flag false

def partOf (graph : List (GraphNode α)) (fallback : String) (fields : Fields α) : Part α :=
  let synth := synthOf graph (firstOf fields ["synthRef", "synth", "instrument"])
  { label := (firstText fields ["label", "name", "id", "title"]).getD fallback
    synthRef := synth.1
    synth := synth.2
    effects := (((Json.lookup "effects" fields).bind Json.array?).getD []).filterMap effectOf
    notes := (firstOf fields ["notes", "events"]).map notesOf
    looping := loopOf (Json.lookup "loop" fields)
    loopEnd := (firstOf fields ["loopEnd", "loopLength"]).bind plainTime
    midiChannel := (firstOf fields ["midiChannel", "channel"]).bind Json.int64? }

def headerOf (fields : Fields α) : Score α :=
  let nested := ((Json.lookup "metadata" fields).bind Json.object?).getD []
  let about := fun keys => (firstText fields keys).or (firstText nested keys)
  { Score.empty with
    bpm := some (((firstOf fields ["bpm", "tempo"]).bind Json.scalar?).getD
      (Scalar.ofInt defaultTempo))
    key := firstText fields ["keySignature", "key"]
    meter := firstText fields ["timeSignature", "meter"]
    metadata := ⟨about ["name", "title"], about ["author", "composer"], about ["description"]⟩
    tempoMap := readable TempoPoint.read (Json.lookup "tempoMap" fields)
    meterMap := readable MeterPoint.read (Json.lookup "timeSignatureMap" fields)
    keyMap := readable KeyPoint.read (Json.lookup "keySignatureMap" fields)
    graph := readable GraphNode.read (Json.lookup "audioGraph" fields)
    connections :=
      (((Json.lookup "connections" fields).bind Json.array?).getD []).filterMap connectionOf
    automation := readable AutomationPoint.read (Json.lookup "automation" fields)
    remarks := readable Remark.read (Json.lookup "annotations" fields) }

/-- A part that names the instrument with this id, unless it has one. -/
def Part.playThrough (id : String) (p : Part α) : Part α :=
  if p.hasSynth then p else { p with synthRef := some id }

/-- Gives the parts without an instrument the first one of the graph. A graph
without nodes gets one; one without an instrument leaves them as they are. -/
def Score.assignSynths (s : Score α) : Score α :=
  if s.partList.all Part.hasSynth then s
  else
    let instrument := s.graph.find? fun n => n.kind.role == .instrument
    match instrument with
    | some n => { s with parts := s.parts.map (List.map (Part.playThrough n.id)) }
    | none =>
      if s.graph.isEmpty then
        { s with
          graph := [⟨defaultSynthId, .synth, [], none, none⟩]
          connections := s.connections ++ [.between defaultSynthId masterId]
          parts := s.parts.map (List.map (Part.playThrough defaultSynthId)) }
      else s

structure Shape (α : Type) where
  name : String
  read? : Json α → Option (Score α)

def documentShape : Shape α :=
  ⟨"canonical", fun j => if isDocument j then some (readDocument j) else none⟩

def trackOf (graph : List (GraphNode α)) : String × Json α → Part α
  | (key, .obj fields) => partOf graph key fields
  | (key, j) => Part.labelled key (some (notesOf j))

def trackShape : Shape α :=
  ⟨"tracks", fun j => do
    let fields ← j.object?
    let tracks ← (Json.lookup "tracks" fields).bind Json.object?
    let header := headerOf fields
    some { header with parts := some (tracks.map (trackOf header.graph)) }.assignSynths⟩

def listedPart (graph : List (GraphNode α)) (item : Json α × Nat) : Part α :=
  let label := "sequence" ++ toString (item.2 + 1)
  match item.1 with
  | .obj fields => partOf graph label fields
  | j => Part.labelled label (j.array?.map fun _ => notesOf j)

def partShape : Shape α :=
  ⟨"sequences", fun j => do
    let fields ← j.object?
    let items ← ["sequences", "parts"].findSome? fun k =>
      (Json.lookup k fields).bind Json.array?
    let header := headerOf fields
    some { header with parts := some (items.zipIdx.map (listedPart header.graph)) }⟩

def noteListShape : Shape α :=
  ⟨"note-array", fun j => do
    let items ← j.array?
    if items.all fun item => item.object?.isSome then
      some { headerOf ([] : Fields α) with
        parts := some [Part.labelled defaultPartLabel (some (notesOf j))] }.assignSynths
    else none⟩

def anyShape : Shape α := ⟨"fallback", fun _ => some Score.empty⟩

def shapes : List (Shape α) :=
  [documentShape, trackShape, partShape, noteListShape, anyShape]

def shapeNames (j : Json α) : List String :=
  (shapes.filter fun shape => (shape.read? j).isSome).map Shape.name

def normalize (j : Json α) : Score α :=
  (shapes.findSome? fun shape => shape.read? j).getD Score.empty

end Partitura
