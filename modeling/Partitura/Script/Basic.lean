import Partitura.Script.Definition

/-!
# Scripts

A script is a list of statements for a SuperCollider server. Statements name
definitions by symbols and everything that lives on the server by variables, so
that what a script defines and uses can be read off its statements. The text of
a script is its header, and a block that waits for the server and then runs the
statements.
-/

namespace Partitura.Script

inductive Variable where
  | bus (name : String)
  | modulatorBus (name : String)
  | effect (name : String)
  | modulator (name : String)
  | group (name : String)
  | pattern (name : String)
  | player (name : String)
deriving DecidableEq, Repr

def Variable.text : Variable → String
  | bus name => "~bus_" ++ name
  | modulatorBus name => "~lfo_bus_" ++ name
  | effect name => "~fx_" ++ name
  | modulator name => "~lfo_" ++ name
  | group name => "~group_" ++ name
  | pattern name => "~pattern_" ++ name
  | player name => "~player_" ++ name

inductive Outlet where
  | hardware
  | bus (name : String)
deriving DecidableEq, Repr

def Outlet.text : Outlet → String
  | hardware => "0"
  | bus name => (Variable.bus name).text

def effectSymbol (name : String) : String := "fx_" ++ name

def modulatorSymbol (name : String) : String := "lfo_" ++ name

inductive Row (α : Type) where
  | rest (beats : α)
  | notes (numbers : List String) (beats level : α)

/-- What a pattern plays, and how often; without a number, without end. -/
structure Pattern (α : Type) where
  name : String
  instrument : String
  outlet : Outlet
  mappings : List (String × String)
  rows : List (Row α)
  repeats : Option Nat

inductive Receiver where
  | everything
  | variable (v : Variable)
deriving DecidableEq, Repr

inductive Action (α : Type) where
  | tempo (bpm : α)
  | set (receivers : List Receiver) (control : String) (value : α)

inductive Statement (α : Type) where
  | blank
  | comment (text : String)
  | tempo (bpm : α)
  | define (d : Definition α)
  /-- Waits until the server knows all definitions. -/
  | sync
  | audioBus (name : String)
  | controlBus (name : String)
  | effect (name : String) (outlet : Outlet)
  | modulator (name : String)
  | map (target control source : String)
  | group (name : String)
  | pattern (p : Pattern α)
  /-- The next beat of a grid, from which actions count. -/
  | start (grid : α)
  | schedule (beat : α) (action : Action α)
  | play (name : String) (grid : α)

variable {α : Type} [Scalar α]

def restText (beats : α) : String := "[\\rest, " ++ beatsText beats ++ ", 0]"

def numbersText : List String → String
  | [n] => n
  | ns => "[" ++ ", ".intercalate ns ++ "]"

def Row.text : Row α → String
  | rest beats => restText beats
  | notes numbers beats level =>
    "[" ++ numbersText numbers ++ ", " ++ beatsText beats ++ ", " ++ numberText level ++ "]"

def repeatsText : Option Nat → String
  | some n => toString n
  | none => "inf"

def Pattern.lines (p : Pattern α) : List Line :=
  [.opening ((Variable.pattern p.name).text ++ " = Pbind("),
    .plain ("\\instrument, \\" ++ p.instrument ++ ","),
    .plain ("\\group, " ++ (Variable.group p.name).text ++ ","),
    .plain ("\\out, " ++ p.outlet.text ++ ",")]
    ++ p.mappings.map (fun m =>
      .plain ("\\" ++ m.1 ++ ", " ++ (Variable.modulatorBus m.2).text ++ ".asMap,"))
    ++ [.opening "[\\midinote, \\dur, \\amp], Pseq(["]
    ++ p.rows.map (fun r => .plain (r.text ++ ","))
    ++ [.closing ("], " ++ repeatsText p.repeats ++ ")"), .closing ");"]

def tempoText (bpm : α) : String := "TempoClock.default.tempo = " ++ numberText bpm ++ " / 60"

def Receiver.text (server : String) : Receiver → String
  | everything => server ++ ".defaultGroup"
  | .variable v => v.text

def Action.text (server : String) : Action α → String
  | tempo bpm => tempoText bpm
  | set receivers control value =>
    "; ".intercalate (receivers.map fun r =>
      r.text server ++ ".set(\\" ++ control ++ ", " ++ numberText value ++ ")")

def Statement.lines (server : String) : Statement α → List Line
  | blank => [.empty]
  | comment text => [.comment text]
  | tempo bpm => [.plain (tempoText bpm ++ ";")]
  | define d => d.lines
  | sync => [.plain (server ++ ".sync;")]
  | audioBus name =>
    [.plain ((Variable.bus name).text ++ " = Bus.audio(" ++ server ++ ", 2);")]
  | controlBus name =>
    [.plain ((Variable.modulatorBus name).text ++ " = Bus.control(" ++ server ++ ", 1);")]
  | effect name outlet =>
    [.plain ((Variable.effect name).text ++ " = Synth.tail(" ++ server ++ ", \\"
      ++ effectSymbol name ++ ", [\\in, " ++ (Variable.bus name).text ++ ", \\out, "
      ++ outlet.text ++ "]);")]
  | modulator name =>
    [.plain ((Variable.modulator name).text ++ " = Synth.head(" ++ server ++ ", \\"
      ++ modulatorSymbol name ++ ", [\\out, " ++ (Variable.modulatorBus name).text ++ "]);")]
  | map target control source =>
    [.plain ((Variable.effect target).text ++ ".map(\\" ++ control ++ ", "
      ++ (Variable.modulatorBus source).text ++ ");")]
  | group name =>
    [.plain ((Variable.group name).text ++ " = Group.head(" ++ server ++ ");")]
  | pattern p => p.lines
  | start grid =>
    [.plain ("~start = TempoClock.default.nextTimeOnGrid(" ++ numberText grid ++ ");")]
  | schedule beat action =>
    [.plain ("TempoClock.default.schedAbs(~start + " ++ beatsText beat ++ ", \x7b "
      ++ action.text server ++ "; nil \x7d);")]
  | play name grid =>
    [.plain ((Variable.player name).text ++ " = " ++ (Variable.pattern name).text
      ++ ".play(TempoClock.default, quant: " ++ numberText grid ++ ");")]

end Partitura.Script

namespace Partitura

structure Script (α : Type) where
  server : String
  header : List String
  body : List (Script.Statement α)

namespace Script

variable {α : Type} [Scalar α]

def lines (s : Script α) : List Line :=
  s.header.map Line.folded ++ [.empty, .plain "(", .opening (s.server ++ ".waitForBoot \x7b")]
    ++ s.body.flatMap (Statement.lines s.server) ++ [.closing "\x7d;", .plain ")"]

def text (s : Script α) : String := layout 0 s.lines

end Script

end Partitura
