import Partitura.Performance.OfScore
import Partitura.Proofs.Outcome
import Partitura.Proofs.Score.Sound

/-!
# What is reported of a sound score

A report is known by the words that it opens or closes with. Two kinds of report
tell of something that a score had and its performance has not: a tempo that was
replaced, a modulation that was dropped. A sound score gives rise to neither.
-/

namespace Partitura

/-! Texts are told apart by their openings and their endings. -/

def Opens (opening text : String) : Prop := opening.toList <+: text.toList

def Closes (ending text : String) : Prop := ending.toList <:+ text.toList

theorem opens_self (a : String) : Opens a a := List.prefix_rfl

theorem Opens.append {a text : String} (h : Opens a text) (rest : String) :
    Opens a (text ++ rest) := by
  unfold Opens
  rw [String.toList_append]
  exact h.trans (List.prefix_append _ _)

theorem Opens.append_three {a text : String} (h : Opens a text) (x y z : String) :
    Opens a (text ++ x ++ y ++ z) := ((h.append x).append y).append z

theorem Opens.trans {a b text : String} (hab : Opens a b) (hb : Opens b text) : Opens a text :=
  List.IsPrefix.trans hab hb

theorem closes_append (text ending : String) : Closes ending (text ++ ending) := by
  unfold Closes
  rw [String.toList_append]
  exact List.suffix_append _ _

theorem ne_of_openings {a b s t : String} (hs : Opens a s) (ht : Opens b t)
    (h : ¬ Opens a b ∧ ¬ Opens b a) : s ≠ t := by
  rintro rfl
  rcases List.prefix_or_prefix_of_prefix hs ht with hab | hba
  · exact h.1 hab
  · exact h.2 hba

theorem ne_of_endings {a b s t : String} (hs : Closes a s) (ht : Closes b t)
    (h : ¬ Closes a b ∧ ¬ Closes b a) : s ≠ t := by
  rintro rfl
  rcases List.suffix_or_suffix_of_suffix hs ht with hab | hba
  · exact h.1 hab
  · exact h.2 hba

instance (a text : String) : Decidable (Opens a text) :=
  inferInstanceAs (Decidable (a.toList <+: text.toList))

instance (a text : String) : Decidable (Closes a text) :=
  inferInstanceAs (Decidable (a.toList <:+ text.toList))

namespace Diagnostic

def SaysTempoReplaced (d : Diagnostic) : Prop :=
  ∃ bpm, d.message = "invalid bpm " ++ bpm ++ ", using " ++ toString defaultTempo

def SaysModulationDropped (d : Diagnostic) : Prop :=
  ∃ name, d.message = "unknown modulation type '" ++ name ++ "', dropped"

def Quiet (d : Diagnostic) : Prop := ¬ d.SaysTempoReplaced ∧ ¬ d.SaysModulationDropped

def QuietOpening (a : String) : Prop :=
  (¬ Opens a "invalid bpm " ∧ ¬ Opens "invalid bpm " a) ∧
    ¬ Opens a "unknown modulation type '" ∧ ¬ Opens "unknown modulation type '" a

instance (a : String) : Decidable (QuietOpening a) := inferInstanceAs (Decidable (_ ∧ _))

theorem QuietOpening.quiet {d : Diagnostic} {a : String} (ha : QuietOpening a)
    (hd : Opens a d.message) : d.Quiet := by
  constructor
  · rintro ⟨bpm, hbpm⟩
    have hopens := (opens_self "invalid bpm ").append_three bpm ", using " (toString defaultTempo)
    exact ne_of_openings hd hopens ha.1 hbpm
  · rintro ⟨name, hname⟩
    have hopens := ((opens_self "unknown modulation type '").append name).append "', dropped"
    exact ne_of_openings hd hopens ha.2 hname

theorem QuietOpening.reports {β : Type} {level : Level} {path suggestion : Option String}
    {a middle rest : String} {v : β} (ha : QuietOpening a) :
    Outcome.Reports Quiet (do
      Outcome.note ⟨level, a ++ middle ++ rest, path, suggestion⟩
      pure v) :=
  Outcome.reports_note_bind (ha.quiet (((opens_self a).append middle).append rest))
    fun _ => Outcome.reports_pure v

/-- A breakpoint is left out in other words than the tempo of the score is replaced in. -/
theorem quiet_skipped (path bpm : String) :
    (warning path ("invalid bpm " ++ bpm ++ ", entry skipped")).Quiet := by
  have hcloses := closes_append ("invalid bpm " ++ bpm) ", entry skipped"
  have hopens := ((opens_self "invalid bpm ").append bpm).append ", entry skipped"
  constructor
  · rintro ⟨other, hother⟩
    have hending : Closes ", using 120" ("invalid bpm " ++ other ++ ", using " ++ toString 120) := by
      rw [String.append_assoc]
      exact closes_append _ _
    exact ne_of_endings hcloses hending (by decide) hother
  · rintro ⟨name, hname⟩
    have hopens' := ((opens_self "unknown modulation type '").append name).append "', dropped"
    exact ne_of_openings hopens hopens' (by decide) hname

end Diagnostic

open Diagnostic Outcome

variable {α : Type} [Scalar α]

namespace TimeLine

theorem reports_amount? (line : TimeLine α) (path : String) (t : Option (WrittenTime α)) :
    Reports Quiet (line.amount? path t) := by
  unfold amount?
  split
  · exact reports_pure _
  · split
    · exact reports_pure _
    · exact QuietOpening.reports (by decide)

theorem reports_position (line : TimeLine α) (path : String) (t : Option (WrittenTime α)) :
    Reports Quiet (line.position path t) :=
  reports_bind (line.reports_amount? path t) fun a => by cases a <;> exact reports_pure _

theorem reports_span (line : TimeLine α) (path : String) (start : α)
    (t : Option (WrittenTime α)) : Reports Quiet (line.span path start t) :=
  reports_bind (line.reports_amount? path t) fun a => by cases a <;> exact reports_pure _

end TimeLine

/-! The head of a score and its tempo, meter and key changes. -/

theorem reports_baseTempo {bpm : α} (h : Scalar.isPositive bpm = true) :
    Reports Quiet (baseTempo (some bpm)) := by
  have hkept : baseTempo (some bpm) = pure bpm := if_pos h
  rw [hkept]
  exact reports_pure bpm

theorem reports_baseMeter (meter : Option String) : Reports Quiet (baseMeter meter) := by
  unfold baseMeter
  split
  · exact reports_pure _
  · split
    · exact reports_pure _
    · exact QuietOpening.reports (by decide)

theorem reports_baseKey (key : Option String) : Reports Quiet (baseKey key) := by
  unfold baseKey
  split
  · exact reports_pure _
  · split
    · exact reports_pure _
    · exact QuietOpening.reports (by decide)

theorem reports_tempoBreakpoint (quarters : α) (i : Nat) (p : TempoPoint α) :
    Reports Quiet (tempoBreakpoint quarters i p) := by
  unfold tempoBreakpoint
  split
  · split
    · exact reports_pure _
    · exact reports_note_bind (quiet_skipped _ _) fun _ => reports_pure _
  · exact QuietOpening.reports (by decide)

theorem reports_meterChange (line : TimeLine α) (i : Nat) (p : MeterPoint α) :
    Reports Quiet (meterChange line i p) := by
  unfold meterChange
  split
  · exact reports_bind (line.reports_position _ _) fun _ => reports_pure _
  · exact QuietOpening.reports (by decide)

theorem reports_keyChange (line : TimeLine α) (i : Nat) (p : KeyPoint α) :
    Reports Quiet (keyChange line i p) := by
  unfold keyChange
  split
  · exact reports_bind (line.reports_position _ _) fun _ => reports_pure _
  · exact QuietOpening.reports (by decide)

/-! Parts. -/

omit [Scalar α] in
theorem reports_instrumentOf (s : Score α) (path : String) (p : Part α) :
    Reports Quiet (instrumentOf s path p) := by
  unfold instrumentOf
  split
  · split
    · exact reports_pure _
    · exact QuietOpening.reports (by decide)
  · exact reports_pure _
  · exact reports_pure _

omit [Scalar α] in
theorem reports_placedEffect (s : Score α) (path : String) (e : EffectRef α) :
    Reports Quiet (placedEffect s path e) := by
  unfold placedEffect
  split
  · split
    · exact reports_pure _
    · exact QuietOpening.reports (by decide)
  · exact reports_pure _

theorem reports_playModulation (line : TimeLine α) (path : String) (start : α)
    {m : Modulation α} (h : ∀ name, m.kind ≠ .unknown name) :
    Reports Quiet (playModulation line path start m) := by
  unfold playModulation
  split
  · rename_i name hk
    exact absurd hk (h name)
  · exact reports_bind (line.reports_span _ _ _) fun _ => reports_pure _

theorem reports_playNote (line : TimeLine α) (path : String) (i : Nat) {n : Note α}
    (h : n.Sound) : Reports Quiet (playNote line path i n) := by
  refine reports_bind (line.reports_position _ _) fun start => ?_
  refine reports_bind (line.reports_span _ _ _) fun duration => ?_
  refine reports_bind ?_ fun modulations => reports_pure _
  exact reports_collectSome fun m hm j => reports_playModulation line _ start (h.modulations m hm)

theorem opens_shortLoop (path : String) (period : α) :
    Opens "loop length " (shortLoop path period).message := by
  show Opens "loop length " (ite _ _ _)
  split
  · decide
  · exact (((opens_self "loop length ").append _).append _ |>.append _).append _

theorem quiet_shortLoop (path : String) (period : α) : (shortLoop path period).Quiet :=
  QuietOpening.quiet (a := "loop length ") (by decide) (opens_shortLoop path period)

theorem reports_finiteLoop (path : String) (span period : α) :
    Reports Quiet (finiteLoop path span period) := by
  unfold finiteLoop
  dsimp only
  split
  · refine reports_note_bind ?_ fun _ => reports_pure _
    exact QuietOpening.quiet (a := "loop would repeat ") (by decide)
      (((opens_self _).append _).append _ |>.append _ |>.append _)
  · exact reports_pure _

theorem reports_repetitionOf (line : TimeLine α) (path : String) (p : Part α) (stop : α) :
    Reports Quiet (repetitionOf line path p stop) := by
  unfold repetitionOf
  split
  · exact reports_pure _
  · have hplayed (period : α) : Reports Quiet (if isPeriod period then
        (pure (.endless period) : Outcome (Repetition α))
        else do
          note (shortLoop path period)
          pure .once) := by
      split
      · exact reports_pure _
      · exact reports_note_bind (quiet_shortLoop _ _) fun _ => reports_pure _
    dsimp only
    split
    · exact reports_bind (line.reports_position _ _) hplayed
    · exact hplayed stop
  · refine reports_note_bind ?_ fun _ => reports_pure _
    exact QuietOpening.quiet (by decide) (opens_self "finite loop without loopEnd, played once")
  · refine reports_bind (line.reports_position _ _) fun period => ?_
    refine reports_bind (line.reports_position _ _) fun span => ?_
    split
    · exact reports_finiteLoop _ _ _
    · exact reports_note_bind (quiet_shortLoop _ _) fun _ => reports_pure _

theorem reports_playPart (s : Score α) (line : TimeLine α) (i : Nat) {p : Part α}
    (h : p.Sound) : Reports Quiet (playPart s line i p) := by
  obtain ⟨notes, hp, hnotes⟩ := h.notes
  refine reports_bind (reports_instrumentOf s _ p) fun instrument => ?_
  refine reports_bind (reports_collectSome fun e _ j => reports_placedEffect s _ e)
    fun effects => ?_
  refine reports_bind (reports_collect fun n hn j => ?_) fun notes => ?_
  · rw [Part.noteList, hp] at hn
    exact reports_playNote line _ j (hnotes n hn)
  · exact reports_bind (reports_repetitionOf line _ p _) fun _ => reports_pure _

/-! Automation, remarks, and the whole score. -/

theorem reports_playAutomation (s : Score α) (line : TimeLine α) (i : Nat)
    (a : AutomationPoint α) : Reports Quiet (playAutomation s line i a) :=
  reports_bind (line.reports_position _ _) fun _ => reports_pure _

theorem reports_remarkKind (path : String) (kind : Option String) :
    Reports Quiet (remarkKind path kind) := by
  unfold remarkKind
  split
  · exact reports_pure _
  · split
    · exact reports_pure _
    · exact QuietOpening.reports (by decide)

theorem reports_playRemark (line : TimeLine α) (i : Nat) (r : Remark α) :
    Reports Quiet (playRemark line i r) := by
  refine reports_bind (reports_remarkKind _ r.kind) fun kind => ?_
  exact reports_bind (line.reports_position _ _) fun _ => reports_pure _

theorem Score.Sound.isPositive {s : Score α} (h : s.Sound) :
    ∃ bpm, s.bpm = some bpm ∧ Scalar.isPositive bpm = true := by
  obtain ⟨bpm, hbpm, hfinite, hpos⟩ := h.tempo
  exact ⟨bpm, hbpm, by simp [Scalar.isPositive, hfinite, hpos]⟩

theorem reports_playing {s : Score α} (h : s.Sound) : Reports Quiet s.playing := by
  obtain ⟨bpm, hbpm, hpos⟩ := h.isPositive
  obtain ⟨parts, hparts, hsound⟩ := h.parts
  refine reports_bind (by rw [hbpm]; exact reports_baseTempo hpos) fun bpm => ?_
  refine reports_bind (reports_baseMeter _) fun meter => ?_
  refine reports_bind (reports_baseKey _) fun key => ?_
  refine reports_bind (reports_collectSome fun p _ i => reports_tempoBreakpoint _ i p)
    fun points => ?_
  refine reports_bind (reports_collectSome fun p _ i => reports_meterChange _ i p)
    fun meterChanges => ?_
  refine reports_bind (reports_collectSome fun p _ i => reports_keyChange _ i p)
    fun keyChanges => ?_
  refine reports_bind (reports_collect fun p hp i => ?_) fun parts => ?_
  · rw [Score.partList, hparts] at hp
    exact reports_playPart s _ i (hsound p hp)
  refine reports_bind (reports_collect fun a _ i => reports_playAutomation s _ i a)
    fun automation => ?_
  exact reports_bind (reports_collect fun r _ i => reports_playRemark _ i r)
    fun _ => reports_pure _

end Partitura
