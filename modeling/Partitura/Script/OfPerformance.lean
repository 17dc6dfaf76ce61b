import Partitura.Script.Timeline

/-!
# Scripts of performances

A script defines all synths, then sets up buses, effects and modulators, then a
pattern for every part, then the timeline, and then plays the patterns together.
A section with nothing in it is left out, but for the patterns.
-/

namespace Partitura.Script

structure Settings (α : Type) where
  server : String
  /-- The grid in beats on which everything starts; a bar, if there is none. -/
  grid : Option α

variable {α : Type} [Scalar α]

def Settings.standard : Settings α := ⟨"s", none⟩

def gridOf (settings : Settings α) (p : Performance α) : α :=
  match settings.grid with
  | some grid => if Scalar.isPositive grid then grid else p.meter.quarters
  | none => p.meter.quarters

def titled (title : String) (statements : List (Statement α)) : List (Statement α) :=
  if statements.isEmpty then [] else [.blank, .comment title] ++ statements

def definitionSection (title : String) (purpose : Purpose) (definitions : List (Definition α)) :
    List (Statement α) :=
  titled title ((definitions.filter fun d => d.purpose == purpose).map .define)

/-- The setting up of buses, effects and modulators; effects of parts come before the
effects of the graph, into which they play. -/
def routingStatements (graph : GraphPlan α) (parts : List (PartPlan α)) : List (Statement α) :=
  graph.buses ++ parts.flatMap PartPlan.buses ++ parts.flatMap PartPlan.effects ++ graph.effects
    ++ graph.modulators

def assemble (bpm grid : α) (graph : GraphPlan α) (parts : List (PartPlan α))
    (timeline : List (Statement α)) : List (Statement α) :=
  let definitions := graph.definitions ++ parts.flatMap PartPlan.definitions
  let players := parts.filter fun part => part.pattern.isSome
  .tempo bpm :: definitionSection "Instruments" .instrument definitions
    ++ definitionSection "Effects" .effect definitions
    ++ definitionSection "Modulators" .modulator definitions
    ++ [.blank, .sync]
    ++ titled "Routing" (routingStatements graph parts)
    ++ [.blank, .comment "Patterns"] ++ parts.flatMap PartPlan.statements
    ++ titled "Timeline" timeline
    ++ titled "Play" (players.map fun part => .play part.name grid)

def headerTexts (p : Performance α) : List String :=
  ["Title: " ++ p.metadata.name.getD "Untitled"]
    ++ (p.metadata.author.map ("Author: " ++ ·)).toList
    ++ (p.metadata.description.map ("Description: " ++ ·)).toList
    ++ ["Source: " ++ p.format ++ " " ++ p.version,
      "Tempo: " ++ numberText p.tempo.initialTempo ++ " bpm, " ++ p.meter.text]

end Partitura.Script

namespace Partitura

variable {α : Type} [Scalar α]

open Script

def scriptOf (settings : Script.Settings α) (p : Performance α) : Outcome (Script α) := do
  let grid := gridOf settings p
  let (graph, names) ← planGraph .empty p
  let (partNames, _) := Names.empty.freshAll (p.parts.map PlayedPart.label)
  let parts ← planParts p graph names 0 (p.parts.zip partNames)
  let timeline ← timeline p graph parts grid
  pure ⟨settings.server, headerTexts p, assemble p.tempo.initialTempo grid graph parts timeline⟩

def scriptText (settings : Script.Settings α) (p : Performance α) : Outcome String := do
  pure (← scriptOf settings p).text

end Partitura
