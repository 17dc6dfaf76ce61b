import Partitura.Proofs.Number.Order
import Partitura.Proofs.Performance.Reports
import Partitura.Proofs.StableSort
import Partitura.Score.Build

/-!
# Faithful performances

Performing has a substitute for everything that a score may lack. For a score that
passes the check none of them that would change its structure is used: edges,
parts, notes and modulations are all there, in their order and as they were, and
what is sorted by time is sorted stably. The checker and the performer say their
limits each in their own words; here the two are brought together.
-/

namespace Partitura

variable {α : Type} [Scalar α]

def TimeLine.place (line : TimeLine α) (t : WrittenTime α) : α :=
  match t.amount? line.quarters with
  | some a => Scalar.maxOf (line.tempo.position a) 0
  | none => 0

def Performance.timeLine (p : Performance α) : TimeLine α := ⟨p.tempo, p.meter.quarters⟩

def Modulation.KeptAs (m : Modulation α) (q : PlayedModulation α) : Prop :=
  q.kind = m.kind ∧ q.value = m.value

structure Note.KeptAs (n : Note α) (i : Nat) (q : PlayedNote α) : Prop where
  index : q.index = i
  pitches : ∃ pitch, n.note = some pitch ∧ q.pitches = pitch.pitches
  articulation : q.articulation = n.articulation
  channel : q.channel.map Int.ofNat = n.channel
  modulations : List.Forall₂ Modulation.KeptAs n.modulations q.modulations

structure Part.KeptAs (p : Part α) (q : PlayedPart α) : Prop where
  label : q.label = p.label
  channel : q.midiChannel.map Int.ofNat = p.midiChannel
  notes : ∃ notes, p.notes = some notes ∧
    List.Forall₂ (fun n q => Note.KeptAs n.1 n.2 q) notes.zipIdx q.notes

def PlayedAutomation.target (q : PlayedAutomation α) : String :=
  match q.node with
  | some id => id ++ "." ++ q.parameter
  | none => q.parameter

structure AutomationPoint.KeptAs (line : TimeLine α) (a : AutomationPoint α)
    (q : PlayedAutomation α) : Prop where
  target : q.target = a.target
  time : q.time = line.place a.time
  value : q.value = a.value
  curve : q.curve = curveOf a.curve

structure Remark.KeptAs (line : TimeLine α) (r : Remark α) (q : PlayedRemark α) : Prop where
  text : q.text = r.text
  time : q.time = line.place r.time
  kind : q.kind = (r.kind.bind RemarkKind.parse?).getD .marker

/-- A list that holds the entries of another as they were, put in order of their times. -/
def InTime {β γ : Type} (Kept : β → γ → Prop) (time : γ → α) (items : List β)
    (played : List γ) : Prop :=
  ∃ placed, List.Forall₂ Kept items placed ∧
    StablySorted (fun a b => decide (time a ≤ time b)) placed played

structure Faithful (s : Score α) (p : Performance α) : Prop where
  routes : p.routes.map (fun r => [r.source, r.target]) = s.connections.map Connection.ends
  parts : ∃ parts, s.parts = some parts ∧ List.Forall₂ Part.KeptAs parts p.parts
  automation : InTime (AutomationPoint.KeptAs p.timeLine) PlayedAutomation.time s.automation
    p.automation
  remarks : InTime (Remark.KeptAs p.timeLine) PlayedRemark.time s.remarks p.remarks
  meterChanges : p.meterChanges.Pairwise fun a b => a.seconds ≤ b.seconds
  keyChanges : p.keyChanges.Pairwise fun a b => a.seconds ≤ b.seconds
  quiet : ∀ d ∈ p.diagnostics, d.Quiet

/-! Times. -/

section Times

theorem value_position (line : TimeLine α) (path : String) (t : WrittenTime α) :
    (line.position path (some t)).value = line.place t := by
  cases h : t.amount? line.quarters with
  | none => simp [TimeLine.position, TimeLine.amount?, TimeLine.place, h]
  | some a => simp [TimeLine.position, TimeLine.amount?, TimeLine.place, h]

variable [LawfulScalar α]

theorem isUndefined_zero : Scalar.isUndefined (0 : α) = false :=
  LawfulScalar.isUndefined_of_isFinite _ Scalar.isFinite_zero

theorem maxOf_zero_cases (x : α) :
    Scalar.maxOf x 0 = 0 ∨ Scalar.isUndefined (Scalar.maxOf x 0) = false ∧
      0 < Scalar.maxOf x 0 := by
  unfold Scalar.maxOf
  by_cases hx : Scalar.isUndefined x = true
  · simp [hx]
  · by_cases hlt : 0 < x
    · simp [hx, hlt, isUndefined_zero]
    · simp [hx, hlt, isUndefined_zero]

theorem place_cases (line : TimeLine α) (t : WrittenTime α) :
    line.place t = 0 ∨ Scalar.isUndefined (line.place t) = false ∧ 0 < line.place t := by
  unfold TimeLine.place
  split
  · exact maxOf_zero_cases _
  · exact .inl rfl

variable [OrderedScalar α]

/-- There is one zero only among the placed times, so sorting them follows the numbers. -/
theorem sortsBefore_place (line : TimeLine α) (t u : WrittenTime α) :
    Scalar.sortsBefore (line.place t) (line.place u) =
      decide (line.place t ≤ line.place u) := by
  have hundefined (v : WrittenTime α) : Scalar.isUndefined (line.place v) = false := by
    rcases place_cases line v with h | h
    · rw [h]
      exact isUndefined_zero
    · exact h.1
  rw [Bool.eq_iff_iff, decide_eq_true_iff]
  constructor
  · exact OrderedScalar.le_of_sortsBefore _ _ (hundefined t) (hundefined u)
  · intro hle
    rcases place_cases line t with ht | ht
    · rcases place_cases line u with hu | hu
      · rw [ht, hu]
        simpa using OrderedScalar.sortsBefore_total (0 : α) 0
      · exact OrderedScalar.sortsBefore_of_le _ _ hle (.inr hu.2)
    · exact OrderedScalar.sortsBefore_of_le _ _ hle (.inl ht.2)

def PlacedBy {γ : Type} (line : TimeLine α) (time : γ → α) (placed : List γ) : Prop :=
  ∀ x ∈ placed, ∃ t, time x = line.place t

variable {β γ : Type} (line : TimeLine α) {time : γ → α} {placed : List γ}

theorem stablySorted_sortByTime (h : PlacedBy line time placed) :
    StablySorted (fun a b => decide (time a ≤ time b)) placed (sortByTime time placed) := by
  have hsorted := stablySorted_mergeSort
    (fun a b c => OrderedScalar.sortsBefore_trans (time a) (time b) (time c))
    (fun a b => OrderedScalar.sortsBefore_total (time a) (time b)) placed
  refine hsorted.congr fun a ha b hb => ?_
  obtain ⟨t, ht⟩ := h a ha
  obtain ⟨u, hu⟩ := h b hb
  rw [ht, hu]
  exact sortsBefore_place line t u

theorem pairwise_sortByTime (h : PlacedBy line time placed) :
    (sortByTime time placed).Pairwise fun a b => time a ≤ time b :=
  (stablySorted_sortByTime line h).pairwise.imp of_decide_eq_true

end Times

/-! What is kept of notes and parts. -/

theorem channel?_of_sound {channel : Option Int} (h : SoundChannel channel) :
    (channel.bind channel?).map Int.ofNat = channel := by
  cases channel with
  | none => rfl
  | some n =>
    have hn : 0 ≤ n ∧ n ≤ 15 := h n rfl
    have hcast : (n.toNat : Int) = n := Int.toNat_of_nonneg hn.1
    simp only [Option.bind_some, channel?, if_pos hn, Option.map_some, Int.ofNat_eq_natCast, hcast]

theorem keptAs_playModulation (line : TimeLine α) (path : String) (start : α) {m : Modulation α}
    (h : ∀ name, m.kind ≠ .unknown name) :
    ∃ q, (playModulation line path start m).value = some q ∧ m.KeptAs q := by
  unfold playModulation
  split
  · rename_i name hk
    exact absurd hk (h name)
  · exact ⟨_, rfl, rfl, rfl⟩

theorem keptAs_playNote (line : TimeLine α) (path : String) (i : Nat) {n : Note α} (h : n.Sound) :
    n.KeptAs i (playNote line path i n).value where
  index := rfl
  pitches := by
    obtain ⟨pitch, hp⟩ := Option.isSome_iff_exists.mp h.pitch
    refine ⟨pitch, hp, ?_⟩
    show (n.note.map NotePitch.pitches).getD [] = pitch.pitches
    rw [hp]
    rfl
  articulation := rfl
  channel := channel?_of_sound h.channel
  modulations := by
    refine forall₂_of_zipIdx (R := Modulation.KeptAs) (s := 0) ?_
    show List.Forall₂ _ _ ((n.modulations.zipIdx.map _).filterMap Outcome.value)
    rw [List.filterMap_map]
    refine forall₂_filterMap_zipIdx (R := fun m _ q => Modulation.KeptAs m q)
      (fun m hm j => ?_) 0
    exact keptAs_playModulation line _ _ (h.modulations m hm)

theorem keptAs_playPart (s : Score α) (line : TimeLine α) (i : Nat) {p : Part α} (h : p.Sound) :
    p.KeptAs (playPart s line i p).value where
  label := rfl
  channel := channel?_of_sound h.channel
  notes := by
    obtain ⟨notes, hp, hnotes⟩ := h.notes
    refine ⟨notes, hp, ?_⟩
    show List.Forall₂ _ _ ((p.noteList.zipIdx.map _).map Outcome.value)
    rw [Part.noteList, hp, Option.getD_some, List.map_map]
    exact forall₂_map_zipIdx fun n hn j => keptAs_playNote line _ j (hnotes n hn)

theorem splitFirst_eq_some {sep : Char} {text head rest : String}
    (h : Text.splitFirst sep text = some (head, rest)) :
    head ++ String.ofList [sep] ++ rest = text := by
  unfold Text.splitFirst at h
  dsimp only at h
  split at h
  · cases h
  · rename_i c cs hdrop
    obtain ⟨rfl, rfl⟩ := Prod.mk.inj (Option.some.inj h)
    have hc : c = sep := by
      have hne : text.toList.dropWhile (fun c => c != sep) ≠ [] := by simp [hdrop]
      have hnot := List.head_dropWhile_not (fun c => c != sep) hne
      simpa [hdrop] using hnot
    subst hc
    have hjoin := List.takeWhile_append_dropWhile (p := fun d => d != c) (l := text.toList)
    apply String.toList_inj.mp
    simp only [String.toList_append, String.toList_ofList]
    rw [hdrop] at hjoin
    simpa using hjoin

theorem target_playAutomation (s : Score α) (line : TimeLine α) (i : Nat)
    (a : AutomationPoint α) : (playAutomation s line i a).value.target = a.target := by
  show PlayedAutomation.target ⟨(automationTarget s a.target).1, (automationTarget s a.target).2,
    _, _, _⟩ = _
  unfold automationTarget
  split
  · rename_i head rest hsplit
    split
    · exact splitFirst_eq_some hsplit
    · rfl
  · rfl

theorem value_remarkKind (path : String) (kind : Option String) :
    (remarkKind path kind).value = (kind.bind RemarkKind.parse?).getD .marker := by
  unfold remarkKind
  cases kind with
  | none => rfl
  | some name =>
    cases h : RemarkKind.parse? name with
    | none => simp [h]
    | some k => simp [h]

/-! The lists of a performance. -/

theorem Score.Sound.ends_routes {s : Score α} (h : s.Sound) :
    s.routes.map (fun r => [r.source, r.target]) = s.connections.map Connection.ends := by
  have hends := h.connections
  unfold Score.routes
  generalize s.connections = connections at hends
  induction connections with
  | nil => rfl
  | cons c rest ih =>
    obtain ⟨source, target, hc⟩ := List.length_eq_two.mp (hends c (List.mem_cons_self ..))
    have hcons : c.endpoints? = some (source, target) := by
      obtain ⟨ends⟩ := c
      obtain rfl : ends = [source, target] := hc
      rfl
    have hrest := ih fun d hd => hends d (List.mem_cons_of_mem _ hd)
    simp only [List.filterMap_cons, hcons, Option.map_some, List.map_cons, hc, hrest]

theorem keptAs_playAutomation (s : Score α) (line : TimeLine α) (i : Nat)
    (a : AutomationPoint α) : a.KeptAs line (playAutomation s line i a).value where
  target := target_playAutomation s line i a
  time := value_position line _ a.time
  value := rfl
  curve := rfl

theorem keptAs_playRemark (line : TimeLine α) (i : Nat) (r : Remark α) :
    r.KeptAs line (playRemark line i r).value where
  text := rfl
  time := value_position line _ r.time
  kind := value_remarkKind _ r.kind

theorem seconds_meterChange {line : TimeLine α} {i : Nat} {p : MeterPoint α}
    {c : Change α Meter} (h : (meterChange line i p).value = some c) :
    c.seconds = line.place p.time := by
  unfold meterChange at h
  split at h
  · obtain rfl := Option.some.inj h
    exact value_position line _ p.time
  · cases h

theorem seconds_keyChange {line : TimeLine α} {i : Nat} {p : KeyPoint α}
    {c : Change α Key} (h : (keyChange line i p).value = some c) :
    c.seconds = line.place p.time := by
  unfold keyChange at h
  split at h
  · obtain rfl := Option.some.inj h
    exact value_position line _ p.time
  · cases h

theorem perform_parts (s : Score α) : (perform s).parts = (Outcome.collect
    (s.partList.zipIdx.map fun (p, i) => playPart s (perform s).timeLine i p)).value := rfl

theorem perform_automation (s : Score α) : (perform s).automation =
    sortByTime PlayedAutomation.time (Outcome.collect
      (s.automation.zipIdx.map fun (a, i) =>
        playAutomation s (perform s).timeLine i a)).value := rfl

theorem perform_remarks (s : Score α) : (perform s).remarks =
    sortByTime PlayedRemark.time (Outcome.collect
      (s.remarks.zipIdx.map fun (r, i) => playRemark (perform s).timeLine i r)).value := rfl

theorem perform_meterChanges (s : Score α) : (perform s).meterChanges =
    sortByTime Change.seconds (Outcome.collectSome
      (s.meterMap.zipIdx.map fun (p, i) => meterChange (perform s).timeLine i p)).value := rfl

theorem perform_keyChanges (s : Score α) : (perform s).keyChanges =
    sortByTime Change.seconds (Outcome.collectSome
      (s.keyMap.zipIdx.map fun (p, i) => keyChange (perform s).timeLine i p)).value := rfl

variable [LawfulScalar α] [OrderedScalar α]

theorem inTime_collect {β γ : Type} {Kept : β → γ → Prop} {time : γ → α} (line : TimeLine α)
    {f : β × Nat → Outcome γ} {items : List β} (hkept : ∀ x i, Kept x (f (x, i)).value)
    (htime : ∀ x i, ∃ t, time (f (x, i)).value = line.place t) :
    InTime Kept time items (sortByTime time (Outcome.collect (items.zipIdx.map f)).value) := by
  refine ⟨_, Outcome.forall₂_collect fun x _ i => hkept x i, ?_⟩
  refine stablySorted_sortByTime line fun y hy => ?_
  obtain ⟨x, i, rfl⟩ := Outcome.mem_collect hy
  exact htime x i

theorem inTime_automation (s : Score α) :
    InTime (AutomationPoint.KeptAs (perform s).timeLine) PlayedAutomation.time s.automation
      (perform s).automation := by
  rw [perform_automation]
  refine inTime_collect (perform s).timeLine (fun a i => ?_) fun a i => ⟨a.time, ?_⟩
  · exact keptAs_playAutomation s _ i a
  · exact (keptAs_playAutomation s _ i a).time

theorem inTime_remarks (s : Score α) :
    InTime (Remark.KeptAs (perform s).timeLine) PlayedRemark.time s.remarks
      (perform s).remarks := by
  rw [perform_remarks]
  refine inTime_collect (perform s).timeLine (fun r i => ?_) fun r i => ⟨r.time, ?_⟩
  · exact keptAs_playRemark _ i r
  · exact (keptAs_playRemark _ i r).time

theorem pairwise_meterChanges (s : Score α) :
    (perform s).meterChanges.Pairwise fun a b => a.seconds ≤ b.seconds := by
  rw [perform_meterChanges]
  refine pairwise_sortByTime (perform s).timeLine fun c hc => ?_
  obtain ⟨p, i, hp⟩ := Outcome.mem_collectSome hc
  exact ⟨p.time, seconds_meterChange hp⟩

theorem pairwise_keyChanges (s : Score α) :
    (perform s).keyChanges.Pairwise fun a b => a.seconds ≤ b.seconds := by
  rw [perform_keyChanges]
  refine pairwise_sortByTime (perform s).timeLine fun c hc => ?_
  obtain ⟨p, i, hp⟩ := Outcome.mem_collectSome hc
  exact ⟨p.time, seconds_keyChange hp⟩

/-- A score that passes the check is performed faithfully. -/
theorem faithful_perform (s : Score α) (h : s.check.success = true) : Faithful s (perform s) := by
  have hsound : s.Sound := ((success_ofFindings _).trans s.clean_findings).mp h
  obtain ⟨parts, hparts, hpart⟩ := hsound.parts
  refine
    { routes := hsound.ends_routes
      parts := ⟨parts, hparts, ?_⟩
      automation := inTime_automation s
      remarks := inTime_remarks s
      meterChanges := pairwise_meterChanges s
      keyChanges := pairwise_keyChanges s
      quiet := reports_playing hsound }
  rw [perform_parts, Score.partList, hparts]
  exact Outcome.forall₂_collect fun p hp i => keptAs_playPart s _ i (hpart p hp)

theorem faithful_perform_song :
    let chord : Note Float := { Note.sounding (.chord [.name "E4", .midi 67]) (.text "1:0")
        (.seconds 0.5) with channel := some 15, modulations := [.ofBend 0.25 (.text "8n")] }
    let song : Score Float := { Score.empty with
      bpm := some 96
      tempoMap := [⟨.text "2:0", -1⟩]
      connections := [.between "lead" "master"]
      parts := some [(Part.labelled "lead" (some [chord])).playing "lead"]
      automation := [⟨"lead.gain", .seconds 2, 0.5, none⟩, ⟨"lead.gain", .text "soon", 1, none⟩]
      remarks := [⟨"end", .text "4:0", none⟩, ⟨"start", .seconds 0, none⟩] }
    song.check.success = true ∧ Faithful song (perform song) := by
  intro chord song
  have hchannel : SoundChannel (some 15) := by
    rintro n ⟨⟩
    decide
  have hchord : chord.Sound :=
    { time := rfl
      duration := rfl
      pitch := rfl
      channel := hchannel
      modulations := by
        intro m hm name
        rw [List.mem_singleton.mp hm]
        exact nofun }
  have hsong : song.Sound :=
    { rejected := rfl
      format := rfl
      version := rfl
      tempo := ⟨96, rfl, by decide, by decide⟩
      nodes := .nil
      connections := by simp [song, Connection.between]
      parts := ⟨_, rfl, by
        intro p hp
        rw [List.mem_singleton.mp hp]
        refine ⟨.inl rfl, nofun, [chord], rfl, ?_⟩
        intro n hn
        rwa [List.mem_singleton.mp hn]⟩ }
  have hcheck : song.check.success = true :=
    ((success_ofFindings _).trans song.clean_findings).mpr hsong
  exact ⟨hcheck, faithful_perform song hcheck⟩

end Partitura
