import Partitura.Proofs.Json.Record
import Partitura.Proofs.Sorted
import Partitura.Score.Reader

/-!
# Scores that a document can hold

All numbers are finite, and the name of each kind is read as that kind again.
Integers of 64 bits and options in order are what the fields of a score promise
anyway. Whatever is read from a value of a parser is of this form.
-/

namespace Partitura

open Json

def DeviceKind.Named (k : DeviceKind) : Prop := parse k.text = k

def ModulationKind.Named (k : ModulationKind) : Prop := parse k.text = k

theorem parse_text_parse {κ : Type} (names : List (κ × List String)) {parse : String → κ}
    {text : κ → String} (unknown : String → κ)
    (hknown : ∀ entry ∈ names, parse (text entry.1) = entry.1)
    (hunknown : ∀ s, text (unknown s) = s)
    (hsome : ∀ s entry, names.find? (fun entry => entry.2.contains (nameKey s)) = some entry →
      parse s = entry.1)
    (hnone : ∀ s, names.find? (fun entry => entry.2.contains (nameKey s)) = none →
      parse s = unknown s) (s : String) : parse (text (parse s)) = parse s := by
  cases h : names.find? fun entry => entry.2.contains (nameKey s) with
  | some entry =>
    rw [hsome s entry h]
    exact hknown entry (List.mem_of_find?_eq_some h)
  | none => rw [hnone s h, hunknown, hnone s h]

theorem DeviceKind.named_parse (s : String) : (parse s).Named := by
  refine parse_text_parse names unknown (by decide) (fun _ => rfl) ?_ ?_ s
  · intro s entry h
    simp only [parse, h]
  · intro s h
    simp only [parse, h]

theorem ModulationKind.named_parse (s : String) : (parse s).Named := by
  refine parse_text_parse names unknown (by decide) (fun _ => rfl) ?_ ?_ s
  · intro s entry h
    simp only [parse, h]
  · intro s h
    simp only [parse, h]

def PitchValue.Storable : PitchValue → Prop
  | .midi n => isInt64 n = true
  | .name _ => True

def NotePitch.Storable (p : NotePitch) : Prop := ∀ v ∈ p.pitches, v.Storable

variable {α : Type}

structure InlineDevice.Storable (d : InlineDevice α) : Prop where
  kind : d.kind.Named
  options : Sorted.Ascending d.options

structure GraphNode.Storable (n : GraphNode α) : Prop where
  kind : n.kind.Named
  options : Sorted.Ascending n.options

def EffectRef.Storable : EffectRef α → Prop
  | .node _ => True
  | .inline d => d.Storable

variable [Scalar α]

def WrittenTime.Storable : WrittenTime α → Prop
  | .seconds x => Scalar.isFinite x = true
  | .text _ => True

def LoopSetting.Storable : LoopSetting α → Prop
  | .flag _ => True
  | .span t => t.Storable

structure TempoPoint.Storable (p : TempoPoint α) : Prop where
  time : p.time.Storable
  bpm : Scalar.isFinite p.bpm = true

structure Modulation.Storable (m : Modulation α) : Prop where
  kind : m.kind.Named
  controller : ∀ c ∈ m.controller, isInt64 c = true
  value : Scalar.isFinite m.value = true
  time : ∀ t ∈ m.time, t.Storable

structure Note.Storable (n : Note α) : Prop where
  note : ∀ p ∈ n.note, p.Storable
  time : ∀ t ∈ n.time, t.Storable
  duration : ∀ t ∈ n.duration, t.Storable
  velocity : ∀ x ∈ n.velocity, Scalar.isFinite x = true
  microtuning : ∀ x ∈ n.microtuning, Scalar.isFinite x = true
  channel : ∀ c ∈ n.channel, isInt64 c = true
  modulations : ∀ m ∈ n.modulations, m.Storable

structure Part.Storable (p : Part α) : Prop where
  synth : ∀ d ∈ p.synth, d.Storable
  effects : ∀ e ∈ p.effects, e.Storable
  notes : ∀ ns ∈ p.notes, ∀ n ∈ ns, n.Storable
  looping : p.looping.Storable
  loopEnd : ∀ t ∈ p.loopEnd, t.Storable
  midiChannel : ∀ c ∈ p.midiChannel, isInt64 c = true

structure AutomationPoint.Storable (e : AutomationPoint α) : Prop where
  time : e.time.Storable
  value : Scalar.isFinite e.value = true

structure Score.Storable (s : Score α) : Prop where
  bpm : ∀ x ∈ s.bpm, Scalar.isFinite x = true
  tempoMap : ∀ p ∈ s.tempoMap, p.Storable
  meterMap : ∀ p ∈ s.meterMap, p.time.Storable
  keyMap : ∀ p ∈ s.keyMap, p.time.Storable
  graph : ∀ n ∈ s.graph, n.Storable
  parts : ∀ ps ∈ s.parts, ∀ p ∈ ps, p.Storable
  automation : ∀ e ∈ s.automation, e.Storable
  remarks : ∀ a ∈ s.remarks, a.time.Storable

/-! Values with nothing in them. -/

theorem DeviceKind.named_unnamed : unnamed.Named := by
  unfold Named
  decide

theorem DeviceKind.named_synth : synth.Named := by
  unfold Named
  decide

theorem ModulationKind.named_unnamed : unnamed.Named := by
  unfold Named
  decide

theorem Note.storable_none : (Note.none : Note α).Storable :=
  ⟨nofun, nofun, nofun, nofun, nofun, nofun, nofun⟩

theorem Part.storable_labelled (label : String) {notes : Option (List (Note α))}
    (h : ∀ ns ∈ notes, ∀ n ∈ ns, n.Storable) : (Part.labelled label notes).Storable :=
  ⟨nofun, nofun, h, trivial, nofun, nofun⟩

theorem Score.storable_blank : (Score.blank : Score α).Storable :=
  ⟨nofun, nofun, nofun, nofun, nofun, nofun, nofun, nofun⟩

/-! Readers yield storable values. -/

theorem yields_deviceKind : Yields (DeviceKind.read : Json α → _) DeviceKind.Named :=
  Yields.map fun _ s _ _ => DeviceKind.named_parse s

theorem yields_modulationKind : Yields (ModulationKind.read : Json α → _) ModulationKind.Named :=
  Yields.map fun _ s _ _ => ModulationKind.named_parse s

theorem yields_options : Yields (Options.read : Json α → _) Sorted.Ascending := by
  intro j options _ h
  cases j with
  | obj fields =>
    obtain ⟨entries, -, h⟩ := bind_ok h
    cases h
    exact Sorted.ascending_ofList entries
  | null => cases h
  | bool => cases h
  | int => cases h
  | real => cases h
  | str => cases h
  | arr => cases h

theorem yields_inlineDevice :
    Yields (InlineDevice.read : Json α → _) InlineDevice.Storable := by
  refine yields_asRecord InlineDevice.Storable
    ⟨DeviceKind.named_unnamed, Sorted.ascending_nil⟩ ?_ ?_
  · intro d name j d' hj hd h
    split at h
    · exact yields_deviceKind.keeps hj h fun _ hk => { hd with kind := hk }
    · exact yields_options.keeps hj h fun _ ho => { hd with options := ho }
    · cases h
      exact hd
  · intro d r hd h
    cases h
    exact hd

theorem yields_graphNode : Yields (GraphNode.read : Json α → _) GraphNode.Storable := by
  let P (d : Option String × GraphNode α) : Prop := d.2.Storable
  refine yields_asRecord P ⟨DeviceKind.named_unnamed, Sorted.ascending_nil⟩ ?_ ?_
  · intro d name j d' hj hd h
    split at h
    · exact (yields_any _).keeps hj h fun _ _ => hd
    · exact yields_deviceKind.keeps hj h fun _ hk => { hd with kind := hk }
    · exact yields_options.keeps hj h fun _ ho => { hd with options := ho }
    · exact (yields_any _).keeps hj h fun _ _ => { hd with }
    · exact (yields_any _).keeps hj h fun _ _ => { hd with }
    · cases h
      exact hd
  · intro d r hd h
    obtain ⟨id, -, h⟩ := bind_ok h
    cases h
    exact { hd with }

theorem yields_effectRef : Yields (EffectRef.read : Json α → _) EffectRef.Storable :=
  yields_asOneOf (Yields.map fun _ _ _ _ => trivial) (Yields.map yields_inlineDevice)

theorem yields_pitchValue : Yields (PitchValue.read : Json α → _) PitchValue.Storable :=
  yields_asOneOf (Yields.map yields_asInt64) (Yields.map fun _ _ _ _ => trivial)

theorem yields_notePitch : Yields (NotePitch.read : Json α → _) NotePitch.Storable := by
  refine yields_asOneOf (Yields.map ?_) (Yields.map yields_pitchValue.asList)
  intro j p hj hp v hv
  rw [List.mem_singleton.mp hv]
  exact yields_pitchValue hj hp

variable [LawfulScalar α]

theorem yields_writtenTime : Yields (WrittenTime.read : Json α → _) WrittenTime.Storable :=
  yields_asOneOf (Yields.map yields_asScalar) (Yields.map fun _ _ _ _ => trivial)

theorem yields_loopSetting : Yields (LoopSetting.read : Json α → _) LoopSetting.Storable :=
  yields_asOneOf (Yields.map fun _ _ _ _ => trivial) (Yields.map yields_writtenTime)

theorem yields_tempoPoint : Yields (TempoPoint.read : Json α → _) TempoPoint.Storable := by
  let P (d : Option (WrittenTime α) × Option α) : Prop :=
    (∀ t ∈ d.1, t.Storable) ∧ ∀ x ∈ d.2, Scalar.isFinite x = true
  refine yields_asRecord P ⟨nofun, nofun⟩ ?_ ?_
  · intro d name j d' hj hd h
    split at h
    · exact yields_writtenTime.keeps hj h fun t ht => ⟨by simpa using ht, hd.2⟩
    · exact yields_asScalar.keeps hj h fun x hx => ⟨hd.1, by simpa using hx⟩
    · cases h
      exact hd
  · intro d r hd h
    obtain ⟨t, ht, h⟩ := bind_ok h
    obtain ⟨x, hx, h⟩ := bind_ok h
    cases h
    exact ⟨hd.1 t (need_ok ht), hd.2 x (need_ok hx)⟩

theorem yields_timedText (type field : String) :
    Yields (readTimedText type field : Json α → _) fun r => r.1.Storable := by
  let P (d : Option (WrittenTime α) × Option String) : Prop := ∀ t ∈ d.1, t.Storable
  refine yields_asRecord P nofun ?_ ?_
  · intro d name j d' hj hd h
    split at h
    · exact yields_writtenTime.keeps hj h fun t ht => by simpa [P] using ht
    · split at h
      · exact (yields_any _).keeps hj h fun _ _ => hd
      · cases h
        exact hd
  · intro d r hd h
    obtain ⟨t, ht, h⟩ := bind_ok h
    obtain ⟨x, -, h⟩ := bind_ok h
    cases h
    exact hd t (need_ok ht)

theorem yields_meterPoint : Yields (MeterPoint.read : Json α → _) fun p => p.time.Storable :=
  Yields.map (yields_timedText "MeterChange" "timeSignature")

theorem yields_keyPoint : Yields (KeyPoint.read : Json α → _) fun p => p.time.Storable :=
  Yields.map (yields_timedText "KeyChange" "keySignature")

theorem yields_modulation : Yields (Modulation.read : Json α → _) Modulation.Storable := by
  refine yields_asRecord Modulation.Storable
    ⟨ModulationKind.named_unnamed, nofun, Scalar.isFinite_zero, nofun⟩ ?_ ?_
  · intro d name j d' hj hd h
    split at h
    · exact yields_modulationKind.keeps hj h fun _ hk => { hd with kind := hk }
    · exact yields_asInt64.asOption.keeps hj h fun _ hc => { hd with controller := hc }
    · exact yields_asScalar.keeps hj h fun _ hx => { hd with value := hx }
    · exact yields_writtenTime.asOption.keeps hj h fun _ ht => { hd with time := ht }
    · cases h
      exact hd
  · intro d r hd h
    cases h
    exact hd

theorem yields_note : Yields (Note.read : Json α → _) Note.Storable := by
  refine yields_asRecord Note.Storable Note.storable_none ?_ ?_
  · intro d name j d' hj hd h
    split at h
    · exact yields_notePitch.asOption.keeps hj h fun _ hp => { hd with note := hp }
    · exact yields_writtenTime.asOption.keeps hj h fun _ ht => { hd with time := ht }
    · exact yields_writtenTime.asOption.keeps hj h fun _ ht => { hd with duration := ht }
    · exact yields_asScalar.asOption.keeps hj h fun _ hx => { hd with velocity := hx }
    · exact (yields_any _).keeps hj h fun _ _ => { hd with }
    · exact yields_asScalar.asOption.keeps hj h fun _ hx => { hd with microtuning := hx }
    · exact yields_asInt64.asOption.keeps hj h fun _ hc => { hd with channel := hc }
    · exact yields_modulation.asList.keeps hj h fun _ hm => { hd with modulations := hm }
    · cases h
      exact hd
  · intro d r hd h
    cases h
    exact hd

theorem yields_part : Yields (Part.read : Json α → _) Part.Storable := by
  refine yields_asRecord Part.Storable (Part.storable_labelled "" nofun) ?_ ?_
  · intro d name j d' hj hd h
    split at h
    · exact (yields_any _).keeps hj h fun _ _ => { hd with }
    · exact (yields_any _).keeps hj h fun _ _ => { hd with }
    · exact yields_inlineDevice.asOption.keeps hj h fun _ hs => { hd with synth := hs }
    · exact yields_effectRef.asList.keeps hj h fun _ he => { hd with effects := he }
    · exact yields_note.asList.asOption.keeps hj h fun _ hn => { hd with notes := hn }
    · exact yields_loopSetting.keeps hj h fun _ hl => { hd with looping := hl }
    · exact yields_writtenTime.asOption.keeps hj h fun _ ht => { hd with loopEnd := ht }
    · exact yields_asInt64.asOption.keeps hj h fun _ hc => { hd with midiChannel := hc }
    · cases h
      exact hd
  · intro d r hd h
    cases h
    exact hd

theorem yields_automationPoint :
    Yields (AutomationPoint.read : Json α → _) AutomationPoint.Storable := by
  let P (d : Option String × Option (WrittenTime α) × Option α × Option String) : Prop :=
    (∀ t ∈ d.2.1, t.Storable) ∧ ∀ x ∈ d.2.2.1, Scalar.isFinite x = true
  refine yields_asRecord P ⟨nofun, nofun⟩ ?_ ?_
  · intro d name j d' hj hd h
    split at h
    · exact (yields_any _).keeps hj h fun _ _ => hd
    · exact yields_writtenTime.keeps hj h fun t ht => ⟨by simpa using ht, hd.2⟩
    · exact yields_asScalar.keeps hj h fun x hx => ⟨hd.1, by simpa using hx⟩
    · exact (yields_any _).keeps hj h fun _ _ => hd
    · cases h
      exact hd
  · intro d r hd h
    obtain ⟨target, -, h⟩ := bind_ok h
    obtain ⟨t, ht, h⟩ := bind_ok h
    obtain ⟨x, hx, h⟩ := bind_ok h
    cases h
    exact ⟨hd.1 t (need_ok ht), hd.2 x (need_ok hx)⟩

theorem yields_remark : Yields (Remark.read : Json α → _) fun a => a.time.Storable := by
  let P (d : Option String × Option (WrittenTime α) × Option String) : Prop :=
    ∀ t ∈ d.2.1, t.Storable
  refine yields_asRecord P nofun ?_ ?_
  · intro d name j d' hj hd h
    split at h
    · exact (yields_any _).keeps hj h fun _ _ => hd
    · exact yields_writtenTime.keeps hj h fun t ht => by simpa [P] using ht
    · exact (yields_any _).keeps hj h fun _ _ => hd
    · cases h
      exact hd
  · intro d r hd h
    obtain ⟨text, -, h⟩ := bind_ok h
    obtain ⟨t, ht, h⟩ := bind_ok h
    cases h
    exact hd t (need_ok ht)

namespace Score

theorem storable_readField {s s' : Score α} {name : String} {j : Json α} (hj : j.WellFormed)
    (hs : s.Storable) (h : s.readField name j = .ok s') : s'.Storable := by
  unfold readField at h
  split at h
  · exact (yields_any _).keeps hj h fun _ _ => { hs with }
  · cases h
    exact { hs with }
  · exact yields_asScalar.asOption.keeps hj h fun _ hx => { hs with bpm := hx }
  · exact (yields_any _).keeps hj h fun _ _ => { hs with }
  · exact (yields_any _).keeps hj h fun _ _ => { hs with }
  · exact yields_tempoPoint.asList.keeps hj h fun _ hp => { hs with tempoMap := hp }
  · exact yields_meterPoint.asList.keeps hj h fun _ hp => { hs with meterMap := hp }
  · exact yields_keyPoint.asList.keeps hj h fun _ hp => { hs with keyMap := hp }
  · exact (yields_any _).keeps hj h fun _ _ => { hs with }
  · exact yields_graphNode.asList.keeps hj h fun _ hn => { hs with graph := hn }
  · exact (yields_any _).keeps hj h fun _ _ => { hs with }
  · exact yields_part.asList.asOption.keeps hj h fun _ hp => { hs with parts := hp }
  · exact yields_automationPoint.asList.keeps hj h fun _ he => { hs with automation := he }
  · exact yields_remark.asList.keeps hj h fun _ ha => { hs with remarks := ha }
  · cases h
    exact hs

end Score

end Partitura
