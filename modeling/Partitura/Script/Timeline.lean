import Partitura.Script.Part

/-!
# The timeline of a script

Changes of tempo and of parameters are scheduled at their beats, counted from the
next point of the grid. A parameter of an effect or a modulator is set on its
synth, one of an instrument on the groups of all parts that play it, and any
other one on everything. Changes are made at once, also those that a score wants
to be gradual. Remarks are comments.
-/

namespace Partitura.Script

variable {α : Type} [Scalar α]

def receivers (graph : GraphPlan α) (parts : List (PartPlan α)) : Option String → List Receiver
  | none => [.everything]
  | some id =>
    match nodeNamed? graph.nodes id with
    | none => [.everything]
    | some n =>
      match n.role with
      | .effect => [.variable (.effect n.name)]
      | .modulator => [.variable (.modulator n.name)]
      | .sink => [.everything]
      | _ =>
        (parts.filter fun part => part.pattern.isSome && part.node == some id).map fun part =>
          .variable (.group part.name)

def automationAction (tempo : TempoMap α) (graph : GraphPlan α) (parts : List (PartPlan α))
    (e : PlayedAutomation α) : Outcome (Option (α × Action α)) :=
  let targets := receivers graph parts e.node
  if targets.isEmpty then do
    Outcome.note ⟨.info, "no sequence plays '" ++ e.node.getD "" ++ "', automation of '"
      ++ e.parameter ++ "' dropped", none, none⟩
    pure none
  else
    pure (some (tempo.beatAtSeconds e.time,
      .set targets (identifier (Text.lastPiece '.' e.parameter)) e.value))

def steppedReport (count : Nat) : Diagnostic :=
  ⟨.info, toString count ++ " linear automation point(s) written as steps", none, none⟩

def gradualCount (graph : GraphPlan α) (parts : List (PartPlan α))
    (automation : List (PlayedAutomation α)) : Nat :=
  automation.countP fun e => e.curve == .linear && !(receivers graph parts e.node).isEmpty

def remarkComment (tempo : TempoMap α) (r : PlayedRemark α) : Statement α :=
  .comment ("beat " ++ numberText (tempo.beatAtSeconds r.time) ++ ": " ++ r.kind.name ++ " "
    ++ Text.oneLine r.text)

def timeline (p : Performance α) (graph : GraphPlan α) (parts : List (PartPlan α)) (grid : α) :
    Outcome (List (Statement α)) := do
  let tempos := p.tempo.changes.map fun s => (s.beat, Action.tempo s.bpm)
  let automation ← Outcome.collectSome
    (p.automation.map (automationAction p.tempo graph parts))
  let gradual := gradualCount graph parts p.automation
  Outcome.noteIf (decide (0 < gradual)) (steppedReport gradual)
  let scheduled := (sortByTime Prod.fst (tempos ++ automation)).map fun e =>
    Statement.schedule e.1 e.2
  pure (p.remarks.map (remarkComment p.tempo)
    ++ if scheduled.isEmpty then [] else .start grid :: scheduled)

end Partitura.Script
