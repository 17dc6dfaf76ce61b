import Partitura.Main
import Partitura.Number.Rational
import Partitura.Performance.Document
import Partitura.Proofs.Midi.Encode
import Partitura.Proofs.Midi.Notes
import Partitura.Proofs.Performance.Faithful
import Partitura.Proofs.Score.Normal
import Partitura.Proofs.Time.Tempo
import Partitura.Score.Build
import Partitura.Script.Document
import Partitura.Tune.Document
import Partitura.Proofs.Performance.OnBeat
import Partitura.Proofs.Midi.OnBeat
import Partitura.Proofs.Tune.Reading
import Partitura.Proofs.Script.Names
import Partitura.Proofs.Script.Plans
import Partitura.Proofs.Script.Scope
import Partitura.Proofs.Script.Defined
import Partitura.Proofs.Script.Distinct
import Partitura.Proofs.Performance.Unreadable
import Partitura.Proofs.Tune.Lines
import Partitura.Proofs.Script.Comments
import Partitura.Proofs.Tune.Runs
import Partitura.Proofs.Performance.Passes
import Partitura.Proofs.Midi.Bends
import Partitura.Proofs.Script.Onsets
import Partitura.Proofs.Settings.ReadBack
import Partitura.Proofs.Time.Breakpoints
import Partitura.Proofs.Time.InForce
import Partitura.Proofs.Tune.Bars
import Partitura.Proofs.Tune.Length
import Partitura.Proofs.Tune.Measures
import Partitura.Proofs.Script.Timelines
import Partitura.Proofs.Script.Routes
import Partitura.Proofs.Script.Drift
import Partitura.Proofs.Tune.Remarks
import Partitura.Proofs.Script.ExecutionOrder
import Partitura.Proofs.Midi.Deltas
import Partitura.Proofs.Midi.Channels
import Partitura.Proofs.Script.Chains
import Partitura.Proofs.Tune.Heads
import Partitura.Proofs.Controllers.Overlay
import Partitura.Proofs.Score.Carried
import Partitura.Proofs.Score.Beats
import Partitura.Proofs.Score.Synths
import Partitura.Proofs.Score.Numbering
import Partitura.Proofs.Midi.Automation
import Partitura.Proofs.Settings.Layers
import Partitura.Proofs.Music.Pitch
import Partitura.Proofs.Midi.Conductor
import Partitura.Proofs.Midi.Quantity
import Partitura.Proofs.Script.Requests
import Partitura.Proofs.Script.Signals
import Partitura.Proofs.Music.Meter
