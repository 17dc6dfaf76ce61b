import Partitura.Performance.Basic
import Partitura.Score.Check
import Partitura.Score.Normal

/-!
# Performing a score

Every written time is placed on the time line: in seconds as it stands, in beats
through the tempo map, so that a beat lands after every tempo change before it.
A length in beats is measured from the beat that it starts at. A time that
cannot be read counts as zero and is reported at its place.
-/

namespace Partitura

variable {α : Type} [Scalar α]

def defaultVelocity : α := 0.8

/-- Loops shorter than this many seconds are played once. -/
def leastPeriod : α := 0.001

structure TimeLine (α : Type) where
  tempo : TempoMap α
  quarters : α

def unreadableTime (path : String) (t : WrittenTime α) : Diagnostic :=
  ⟨.warning, "unparseable time expression '" ++ t.display ++ "', using 0", some path,
    some "use seconds, bar:beat[:tick] or a token like 4n"⟩

namespace TimeLine

def amount? (line : TimeLine α) (path : String) :
    Option (WrittenTime α) → Outcome (Option (Amount α))
  | none => pure none
  | some t =>
    match t.amount? line.quarters with
    | some a => pure (some a)
    | none => do
      Outcome.note (unreadableTime path t)
      pure none

def position (line : TimeLine α) (path : String) (t : Option (WrittenTime α)) : Outcome α := do
  match ← line.amount? path t with
  | some a => pure (Scalar.maxOf (line.tempo.position a) 0)
  | none => pure 0

def span (line : TimeLine α) (path : String) (start : α) (t : Option (WrittenTime α)) :
    Outcome α := do
  match ← line.amount? path t with
  | some a => pure (Scalar.maxOf (line.tempo.span start a) 0)
  | none => pure 0

end TimeLine

def baseTempo : Option α → Outcome α
  | none => pure (Scalar.ofInt defaultTempo)
  | some bpm =>
    if Scalar.isPositive bpm then pure bpm
    else do
      Outcome.note (.warning "bpm" ("invalid bpm " ++ Scalar.plainText bpm ++ ", using "
        ++ toString defaultTempo))
      pure (Scalar.ofInt defaultTempo)

def baseMeter : Option String → Outcome Meter
  | none => pure .common
  | some s =>
    match Meter.parse? s with
    | some m => pure m
    | none => do
      Outcome.note (.warning "timeSignature" ("unrecognized time signature '" ++ s
        ++ "', using 4/4"))
      pure .common

def baseKey : Option String → Outcome (Option Key)
  | none => pure none
  | some s =>
    match Key.parse? s with
    | some k => pure (some k)
    | none => do
      Outcome.note (.warning "keySignature" ("unrecognized key signature '" ++ s ++ "', using C"))
      pure none

def tempoBreakpoint (quarters : α) (i : Nat) (p : TempoPoint α) : Outcome (Option (Amount α × α)) :=
  let path := entryPath "tempoMap" i
  match p.time.amount? quarters with
  | some t =>
    if Scalar.isPositive p.bpm then pure (some (t, p.bpm))
    else do
      Outcome.note (.warning path ("invalid bpm " ++ Scalar.plainText p.bpm ++ ", entry skipped"))
      pure none
  | none => do
    Outcome.note (.warning path ("unparseable time expression '" ++ p.time.display
      ++ "', entry skipped"))
    pure none

def meterChange (line : TimeLine α) (i : Nat) (p : MeterPoint α) :
    Outcome (Option (Change α Meter)) :=
  let path := entryPath "timeSignatureMap" i
  match Meter.parse? p.meter with
  | some m => do pure (some ⟨← line.position path p.time, m⟩)
  | none => do
    Outcome.note (.warning path ("unrecognized time signature '" ++ p.meter ++ "'"))
    pure none

def keyChange (line : TimeLine α) (i : Nat) (p : KeyPoint α) : Outcome (Option (Change α Key)) :=
  let path := entryPath "keySignatureMap" i
  match Key.parse? p.key with
  | some k => do pure (some ⟨← line.position path p.time, k⟩)
  | none => do
    Outcome.note (.warning path ("unrecognized key signature '" ++ p.key ++ "'"))
    pure none

def InlineDevice.placed (d : InlineDevice α) : PlacedDevice α := ⟨none, d.kind, d.options⟩

def GraphNode.placed (n : GraphNode α) : PlacedDevice α := ⟨some n.id, n.kind, n.options⟩

/-- The device of a part: the node that it names before the device that it describes. -/
def instrumentOf (score : Score α) (path : String) (p : Part α) : Outcome (PlacedDevice α) :=
  match p.synthRef, p.synth with
  | some id, _ =>
    match score.node? id with
    | some n => pure n.placed
    | none => do
      Outcome.note (.warning (path ++ ".synthRef") ("synthRef '" ++ id
        ++ "' names no audio graph node"))
      pure ⟨some id, .unknown id, []⟩
  | none, some d => pure d.placed
  | none, none => pure ⟨none, .unnamed, []⟩

def placedEffect (score : Score α) (path : String) :
    EffectRef α → Outcome (Option (PlacedDevice α))
  | .node id =>
    match score.node? id with
    | some n => pure (some n.placed)
    | none => do
      Outcome.note (.warning path ("effect '" ++ id ++ "' names no audio graph node, skipped"))
      pure none
  | .inline d => pure (some d.placed)

def channel? (n : Int) : Option Nat := if 0 ≤ n ∧ n ≤ 15 then some n.toNat else none

def playModulation (line : TimeLine α) (path : String) (start : α) (m : Modulation α) :
    Outcome (Option (PlayedModulation α)) :=
  match m.kind with
  | .unknown name => do
    Outcome.note (.warning path ("unknown modulation type '" ++ name ++ "', dropped"))
    pure none
  | _ => do
    let offset ← line.span (path ++ ".time") start m.time
    pure (some ⟨m.kind, m.controller.bind playable?, m.value, start + offset⟩)

def playedVelocity : Option α → α
  | some v => if Scalar.isFinite v then Scalar.clampTo 0 1 v else defaultVelocity
  | none => defaultVelocity

def playNote (line : TimeLine α) (partPath : String) (i : Nat) (n : Note α) :
    Outcome (PlayedNote α) := do
  let path := partPath ++ "." ++ entryPath "notes" i
  let start ← line.position (path ++ ".time") n.time
  let duration ← line.span (path ++ ".duration") start n.duration
  let modulations ← Outcome.collectSome (n.modulations.zipIdx.map fun (m, j) =>
    playModulation line (path ++ "." ++ entryPath "modulations" j) start m)
  pure
    { index := i
      pitches := (n.note.map NotePitch.pitches).getD []
      start := start
      duration := duration
      velocity := playedVelocity n.velocity
      articulation := n.articulation
      microtuning := n.microtuning.filter Scalar.isFinite
      channel := n.channel.bind channel?
      modulations := modulations }

def isPeriod (period : α) : Bool := !Scalar.isUndefined period && !decide (period < leastPeriod)

def shortLoop (path : String) (period : α) : Diagnostic :=
  .warning (path ++ ".loopEnd") (
    if period ≤ 0 then "loop length is zero, played once"
    else "loop length " ++ Scalar.plainText period ++ "s is below "
      ++ Scalar.plainText (leastPeriod : α) ++ "s, played once")

/-- A finite loop, its span cut down to the most passes that are unrolled. -/
def finiteLoop (path : String) (span period : α) : Outcome (Repetition α) :=
  let passes := Scalar.ceil (span / period)
  let most : α := Scalar.ofInt maxPasses
  if most < passes then do
    Outcome.note (.warning (path ++ ".loop") ("loop would repeat " ++ Scalar.plainText passes
      ++ " times, capped at " ++ toString maxPasses ++ " passes"))
    pure (.finite (period * most) period)
  else pure (.finite span period)

/-- How a part repeats. The length of a loop is taken once, at its first pass. -/
def repetitionOf (line : TimeLine α) (path : String) (p : Part α) (stop : α) :
    Outcome (Repetition α) :=
  match p.looping, p.loopEnd with
  | .flag false, _ => pure .once
  | .flag true, loopEnd => do
    let period ← match loopEnd with
      | some t => line.position (path ++ ".loopEnd") (some t)
      | none => pure stop
    if isPeriod period then pure (.endless period)
    else do
      Outcome.note (shortLoop path period)
      pure .once
  | .span _, none => do
    Outcome.note (.warning (path ++ ".loop") "finite loop without loopEnd, played once")
    pure .once
  | .span t, some loopEnd => do
    let period ← line.position (path ++ ".loopEnd") (some loopEnd)
    let span ← line.position (path ++ ".loop") (some t)
    if isPeriod period then finiteLoop path span period
    else do
      Outcome.note (shortLoop path period)
      pure .once

def playPart (score : Score α) (line : TimeLine α) (i : Nat) (p : Part α) :
    Outcome (PlayedPart α) := do
  let path := entryPath "sequences" i
  let instrument ← instrumentOf score path p
  let effects ← Outcome.collectSome (p.effects.zipIdx.map fun (e, j) =>
    placedEffect score (path ++ "." ++ entryPath "effects" j) e)
  let notes ← Outcome.collect (p.noteList.zipIdx.map fun (n, j) => playNote line path j n)
  let repetition ← repetitionOf line path p (greatest (notes.map PlayedNote.stop))
  pure ⟨p.label, instrument, effects, notes, repetition, p.midiChannel.bind channel?⟩

def automationTarget (score : Score α) (target : String) : Option String × String :=
  match Text.splitFirst '.' target with
  | some (head, rest) =>
    if (score.node? head).isSome then (some head, rest) else (none, target)
  | none => (none, target)

def curveOf : Option String → Curve
  | some name => if Text.sameLetters name "linear" then .linear else .step
  | none => .step

def playAutomation (score : Score α) (line : TimeLine α) (i : Nat) (e : AutomationPoint α) :
    Outcome (PlayedAutomation α) := do
  let target := automationTarget score e.target
  let time ← line.position (entryPath "automation" i) (some e.time)
  pure ⟨target.1, target.2, time, e.value, curveOf e.curve⟩

def remarkKind (path : String) : Option String → Outcome RemarkKind
  | none => pure .marker
  | some name =>
    match RemarkKind.parse? name with
    | some kind => pure kind
    | none => do
      Outcome.note (.info path ("unknown annotation type '" ++ name ++ "', using marker"))
      pure .marker

def playRemark (line : TimeLine α) (i : Nat) (r : Remark α) : Outcome (PlayedRemark α) := do
  let path := entryPath "annotations" i
  let kind ← remarkKind path r.kind
  let time ← line.position path (some r.time)
  pure ⟨r.text, time, kind⟩

def Score.routes (score : Score α) : List Route :=
  score.connections.filterMap fun c => c.endpoints?.map fun e => ⟨e.1, e.2⟩

/-- A performance before its reports are put into it. -/
def Score.playing (score : Score α) : Outcome (Performance α) := do
  let bpm ← baseTempo score.bpm
  let meter ← baseMeter score.meter
  let key ← baseKey score.key
  let quarters : α := meter.quarters
  let points ← Outcome.collectSome (score.tempoMap.zipIdx.map fun (p, i) =>
    tempoBreakpoint quarters i p)
  let line : TimeLine α := ⟨TempoMap.ofPoints bpm points, quarters⟩
  let meterChanges ← Outcome.collectSome (score.meterMap.zipIdx.map fun (p, i) =>
    meterChange line i p)
  let keyChanges ← Outcome.collectSome (score.keyMap.zipIdx.map fun (p, i) => keyChange line i p)
  let parts ← Outcome.collect (score.partList.zipIdx.map fun (p, i) => playPart score line i p)
  let automation ← Outcome.collect (score.automation.zipIdx.map fun (e, i) =>
    playAutomation score line i e)
  let remarks ← Outcome.collect (score.remarks.zipIdx.map fun (r, i) => playRemark line i r)
  pure
    { format := score.format.getD formatName
      version := score.version.getD formatVersion
      bpm := line.tempo.initialTempo
      meter := meter
      key := key
      tempo := line.tempo
      meterChanges := sortByTime Change.seconds meterChanges
      keyChanges := sortByTime Change.seconds keyChanges
      metadata := score.metadata
      graph := score.graph
      routes := score.routes
      parts := parts
      automation := sortByTime PlayedAutomation.time automation
      remarks := sortByTime PlayedRemark.time remarks
      diagnostics := [] }

def perform (score : Score α) : Performance α :=
  let outcome := score.playing
  { outcome.value with diagnostics := outcome.diagnostics }

/-- The performance of a score without errors, else the report on it. Warnings of
the report come before those of the performance. -/
def prepareScore (score : Score α) : Except Report (Performance α) :=
  let report := score.check
  if report.success then
    let p := perform score
    .ok { p with diagnostics := report.warnings.map Diagnostic.general ++ p.diagnostics }
  else .error report

def prepare (input : Json α) : Except Report (Performance α) := prepareScore (normalize input)

def invalidScore (report : Report) : String := "composition is invalid: " ++ report.display

end Partitura
