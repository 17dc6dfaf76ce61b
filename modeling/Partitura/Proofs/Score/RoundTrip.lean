import Partitura.Number.Binary64
import Partitura.Proofs.Score.Settle
import Partitura.Proofs.Score.Shape
import Partitura.Proofs.Score.Storable
import Partitura.Score.Writer

/-!
# Reading what was written

Each part of a score that a document can hold is read back from its document.
A record is written field by field in the order of its fields, so reading it
goes through the drafts in which the fields so far are set.
-/

namespace Partitura

open Json

variable {α β ρ : Type}

/-! Fields that are left out. -/

theorem Json.lookup_optionalField (key name : String) (v : Option (Json α)) :
    lookup key (optionalField name v) = if name = key then v else none := by
  cases v with
  | none => simp [optionalField, lookup]
  | some j => simp [optionalField, lookup]

theorem Json.lookup_listField {key name : String} (hne : name ≠ key) (items : List (Json α)) :
    lookup key (listField name items) = none := by
  unfold listField
  split
  · rfl
  · simp [lookup, hne]

theorem Json.lookup_unless {key name : String} (hne : name ≠ key) (absent : Bool) (j : Json α) :
    lookup key (if absent then [] else [(name, j)]) = none := by
  split
  · rfl
  · simp [lookup, hne]

section Fills

variable {put : ρ → String → Json α → Except DecodeError ρ} {read : Json α → Except DecodeError β}
  {write : β → Json α} {name : String}

theorem Json.Fills.optional (set : Option β → ρ) {v : Option β}
    (h : ∀ x ∈ v, asOption read (write x) = .ok (some x))
    (hput : ∀ j, put (set none) name j = (asOption read j >>= fun v => .ok (set v))) :
    Fills put (optionalField name (v.map write)) (set none) (set v) := by
  cases v with
  | none => exact fills_nil _
  | some x => exact Fills.field set (h x rfl) (hput _)

theorem Json.Fills.text (set : Option String → ρ) [Scalar α] (v : Option String)
    (hput : ∀ j, put (set none) name j = (asOption asString j >>= fun v => .ok (set v))) :
    Fills put (textField name v) (set none) (set v) :=
  Fills.optional set (fun _ _ => rfl) hput

variable [Scalar α]

theorem Json.Fills.list (set : List β → ρ) {items : List β}
    (h : ∀ x ∈ items, read (write x) = .ok x)
    (hput : ∀ j, put (set []) name j = (asList read j >>= fun v => .ok (set v))) :
    Fills put (listField name (items.map write)) (set []) (set items) := by
  cases items with
  | nil => exact fills_nil _
  | cons x rest => exact Fills.field set (asList_map h) (hput _)

theorem asScalar_ofScalar {x : α} (h : Scalar.isFinite x = true) :
    asScalar (ofScalar x) = .ok x := by
  simp [ofScalar, h, asScalar]

theorem Json.Fills.scalar (set : Option α → ρ) {v : Option α}
    (h : ∀ x ∈ v, Scalar.isFinite x = true)
    (hput : ∀ j, put (set none) name j = (asOption asScalar j >>= fun v => .ok (set v))) :
    Fills put (scalarField name v) (set none) (set v) := by
  refine Fills.optional set (fun x hx => ?_) hput
  exact asOption_some (by simp [ofScalar, h x hx, isNull]) (asScalar_ofScalar (h x hx))

theorem Json.Fills.integer (set : Option Int → ρ) {v : Option Int} (h : ∀ n ∈ v, isInt64 n = true)
    (hput : ∀ j, put (set none) name j = (asOption asInt64 j >>= fun v => .ok (set v))) :
    Fills put (optionalField name (v.map .int)) (set none) (set v) := by
  refine Fills.optional set (fun n hn => asOption_some rfl ?_) hput
  exact if_pos (of_decide_eq_true (h n hn))

end Fills

theorem NotePitch.isNull_toJson (p : NotePitch) : (p.toJson : Json α).isNull = false := by
  cases p with
  | single p => cases p <;> rfl
  | chord ps => rfl

variable [Scalar α]

namespace WrittenTime

theorem read_toJson {t : WrittenTime α} (h : t.Storable) : read t.toJson = .ok t := by
  cases t with
  | seconds x => exact asOneOf_first (congrArg (seconds <$> ·) (asScalar_ofScalar h))
  | text s => exact asOneOf_second rfl rfl

theorem isNull_toJson {t : WrittenTime α} (h : t.Storable) : t.toJson.isNull = false := by
  cases t with
  | seconds x =>
    have h : Scalar.isFinite x = true := h
    simp [toJson, ofScalar, h, isNull]
  | text s => rfl

end WrittenTime

theorem Json.Fills.time {put : ρ → String → Json α → Except DecodeError ρ} {name : String}
    (set : Option (WrittenTime α) → ρ) {v : Option (WrittenTime α)} (h : ∀ t ∈ v, t.Storable)
    (hput : ∀ j, put (set none) name j = (asOption WrittenTime.read j >>= fun v => .ok (set v))) :
    Fills put (timeField name v) (set none) (set v) :=
  Fills.optional set (fun t ht =>
    asOption_some (WrittenTime.isNull_toJson (h t ht)) (WrittenTime.read_toJson (h t ht))) hput

theorem PitchValue.read_toJson {p : PitchValue} (h : p.Storable) :
    read (p.toJson : Json α) = .ok p := by
  cases p with
  | midi n =>
    have hn : asInt64 (.int n : Json α) = .ok n := if_pos (of_decide_eq_true h)
    exact asOneOf_first (congrArg (midi <$> ·) hn)
  | name s => exact asOneOf_second rfl rfl

theorem NotePitch.read_toJson {p : NotePitch} (h : p.Storable) :
    read (p.toJson : Json α) = .ok p := by
  cases p with
  | single p =>
    have hp : PitchValue.read (p.toJson : Json α) = .ok p :=
      PitchValue.read_toJson (h p (List.mem_singleton_self p))
    exact asOneOf_first (congrArg (single <$> ·) hp)
  | chord ps =>
    have hps : asList PitchValue.read (.arr (ps.map PitchValue.toJson) : Json α) = .ok ps :=
      asList_map fun p hp => PitchValue.read_toJson (h p hp)
    exact asOneOf_second rfl (congrArg (chord <$> ·) hps)

theorem Options.read_obj {options : Options α} (h : Sorted.Ascending options) :
    read (.obj options) = .ok options := by
  let pair (f : String × Json α) : Except DecodeError (String × Json α) := do
    .ok (f.1, ← .ok f.2)
  have hpairs (fields : List (String × Json α)) : fields.mapM pair = .ok fields := by
    induction fields with
    | nil => rfl
    | cons f rest ih =>
      rw [List.mapM_cons, ih]
      rfl
  show (options.mapM pair >>= fun entries => .ok (Sorted.ofList entries)) = .ok options
  rw [hpairs]
  exact congrArg Except.ok (Sorted.ofList_eq_self h)

theorem Json.Fills.options {put : ρ → String → Json α → Except DecodeError ρ}
    (set : Options α → ρ) {options : Options α} (h : Sorted.Ascending options)
    (hput : ∀ j, put (set []) "options" j = (Options.read j >>= fun v => .ok (set v))) :
    Fills put (optionsField options) (set []) (set options) := by
  cases options with
  | nil => exact fills_nil _
  | cons => exact Fills.field set (Options.read_obj h) (hput _)

/-! Records. -/

theorem DeviceKind.read_text {k : DeviceKind} (h : k.Named) :
    read (.str k.text : Json α) = .ok k :=
  congrArg Except.ok h

theorem ModulationKind.read_text {k : ModulationKind} (h : k.Named) :
    read (.str k.text : Json α) = .ok k :=
  congrArg Except.ok h

theorem InlineDevice.read_toJson {d : InlineDevice α} (h : d.Storable) :
    read d.toJson = .ok d := by
  refine asRecord_obj (d := d) (Fills.cons (e := ⟨d.kind, []⟩) ?_ ?_) rfl
  · exact congrArg (fun k => Except.ok (InlineDevice.mk k [])) h.kind
  · exact Fills.options (InlineDevice.mk d.kind) h.options fun _ => rfl

theorem EffectRef.read_toJson {e : EffectRef α} (h : e.Storable) : read e.toJson = .ok e := by
  cases e with
  | node id => exact asOneOf_first rfl
  | inline d => exact asOneOf_second rfl (congrArg (inline <$> ·) (InlineDevice.read_toJson h))

theorem LoopSetting.read_toJson {l : LoopSetting α} (h : l.Storable) : read l.toJson = .ok l := by
  cases l with
  | flag on => exact asOneOf_first rfl
  | span t =>
    have ht := congrArg (span <$> ·) (WrittenTime.read_toJson h)
    cases t with
    | seconds x =>
      have hx : ofScalar x = .real x := if_pos h
      exact asOneOf_second ((congrArg (flag <$> asBool ·) hx).trans rfl) ht
    | text s => exact asOneOf_second rfl ht

theorem GraphNode.read_toJson {n : GraphNode α} (h : n.Storable) : read n.toJson = .ok n := by
  refine asRecord_obj (d := (some n.id, { n with id := "" })) ?_ rfl
  refine Fills.append ?_ (Fills.text (fun v => (some n.id,
    GraphNode.mk "" n.kind n.options n.target v)) n.preset fun _ => rfl)
  refine Fills.append ?_ (Fills.text (fun v => (some n.id,
    GraphNode.mk "" n.kind n.options v none)) n.target fun _ => rfl)
  refine Fills.append ?_ (Fills.options (fun o => (some n.id,
    GraphNode.mk "" n.kind o none none)) h.options fun _ => rfl)
  refine Fills.cons (e := (some n.id, ⟨"", .unnamed, [], none, none⟩)) rfl ?_
  exact Fills.field (fun k => (some n.id, GraphNode.mk "" k [] none none))
    (DeviceKind.read_text h.kind) rfl

theorem Modulation.read_toJson {m : Modulation α} (h : m.Storable) : read m.toJson = .ok m := by
  refine asRecord_obj (d := m) ?_ rfl
  refine Fills.append ?_ (Fills.time (Modulation.mk m.kind m.controller m.value) h.time
    fun _ => rfl)
  refine Fills.append ?_ (Fills.field (d := ⟨m.kind, m.controller, 0, none⟩)
    (fun v => Modulation.mk m.kind m.controller v none) (asScalar_ofScalar h.value) rfl)
  refine Fills.append ?_ (Fills.integer (fun v => Modulation.mk m.kind v 0 none) h.controller
    fun _ => rfl)
  exact Fills.field (fun v => Modulation.mk v none 0 none) (ModulationKind.read_text h.kind) rfl

theorem Note.read_toJson {n : Note α} (h : n.Storable) : read n.toJson = .ok n := by
  refine asRecord_obj (d := n) ?_ rfl
  refine Fills.append ?_ (Fills.list (fun v => Note.mk n.note n.time n.duration n.velocity
    n.articulation n.microtuning n.channel v)
    (fun m hm => Modulation.read_toJson (h.modulations m hm)) fun _ => rfl)
  refine Fills.append ?_ (Fills.integer (fun v => Note.mk n.note n.time n.duration n.velocity
    n.articulation n.microtuning v []) h.channel fun _ => rfl)
  refine Fills.append ?_ (Fills.scalar (fun v => Note.mk n.note n.time n.duration n.velocity
    n.articulation v .none []) h.microtuning fun _ => rfl)
  refine Fills.append ?_ (Fills.text (fun v => Note.mk n.note n.time n.duration n.velocity v
    .none .none []) n.articulation fun _ => rfl)
  refine Fills.append ?_ (Fills.scalar (fun v => Note.mk n.note n.time n.duration v .none
    .none .none []) h.velocity fun _ => rfl)
  refine Fills.append ?_ (Fills.time (fun v => Note.mk n.note n.time v .none .none .none .none [])
    h.duration fun _ => rfl)
  refine Fills.append ?_ (Fills.time (fun v => Note.mk n.note v .none .none .none .none .none [])
    h.time fun _ => rfl)
  exact Fills.optional (fun v => Note.mk v .none .none .none .none .none .none [])
    (fun p hp => asOption_some (NotePitch.isNull_toJson p) (NotePitch.read_toJson (h.note p hp)))
    fun _ => rfl

theorem Json.Fills.loop {put : ρ → String → Json α → Except DecodeError ρ}
    (set : LoopSetting α → ρ) {l : LoopSetting α} (h : l.Storable)
    (hput : ∀ j, put (set (.flag false)) "loop" j =
      (LoopSetting.read j >>= fun v => .ok (set v))) :
    Fills put (if l.isOff then [] else [("loop", l.toJson)]) (set (.flag false)) (set l) := by
  have hwritten := Fills.field set (LoopSetting.read_toJson h) (hput _)
  cases l with
  | flag on =>
    cases on with
    | false => exact fills_nil _
    | true => exact hwritten
  | span t => exact hwritten

theorem Part.read_toJson {p : Part α} (h : p.Storable) : read p.toJson = .ok p := by
  refine asRecord_obj (d := p) ?_ rfl
  refine Fills.append ?_ (Fills.integer (fun v => Part.mk p.label p.synthRef p.synth p.effects
    p.notes p.looping p.loopEnd v) h.midiChannel fun _ => rfl)
  refine Fills.append ?_ (Fills.time (fun v => Part.mk p.label p.synthRef p.synth p.effects
    p.notes p.looping v none) h.loopEnd fun _ => rfl)
  refine Fills.append ?_ (Fills.loop (fun v => Part.mk p.label p.synthRef p.synth p.effects
    p.notes v none none) h.looping fun _ => rfl)
  refine Fills.append ?_ (Fills.optional (fun v => Part.mk p.label p.synthRef p.synth p.effects
    v (.flag false) none none) (fun ns hns => asOption_some rfl
    (asList_map fun n hn => Note.read_toJson (h.notes ns hns n hn))) fun _ => rfl)
  refine Fills.append ?_ (Fills.list (fun v => Part.mk p.label p.synthRef p.synth v
    none (.flag false) none none)
    (fun e he => EffectRef.read_toJson (h.effects e he)) fun _ => rfl)
  refine Fills.append ?_ (Fills.optional (fun v => Part.mk p.label p.synthRef v []
    none (.flag false) none none) (fun d hd => asOption_some rfl
    (InlineDevice.read_toJson (h.synth d hd))) fun _ => rfl)
  refine Fills.append ?_ (Fills.text (fun v => Part.mk p.label v none [] none (.flag false)
    none none) p.synthRef fun _ => rfl)
  exact Fills.cons rfl (fills_nil _)

/-! Points of the maps, automation and annotations. -/

theorem TempoPoint.read_toJson {p : TempoPoint α} (h : p.Storable) : read p.toJson = .ok p := by
  refine asRecord_obj (d := (some p.time, some p.bpm)) ?_ rfl
  refine Fills.field_cons (fun v => (some v, none)) (WrittenTime.read_toJson h.time) rfl ?_
  exact Fills.field (fun v => (some p.time, some v)) (asScalar_ofScalar h.bpm) rfl

theorem readTimedText_obj {type field : String} (hne : field ≠ "time") {t : WrittenTime α}
    (h : t.Storable) (s : String) :
    readTimedText type field (.obj [("time", t.toJson), (field, .str s)]) = .ok (t, s) := by
  refine asRecord_obj (d := (some t, some s)) ?_ rfl
  refine Fills.field_cons (fun v => (some v, none)) (WrittenTime.read_toJson h) rfl ?_
  have hs : asString (.str s : Json α) = .ok s := rfl
  refine Fills.field (fun v => (some t, some v)) hs ?_
  rw [if_neg hne, if_pos rfl]

theorem MeterPoint.read_toJson {p : MeterPoint α} (h : p.time.Storable) :
    read p.toJson = .ok p := by
  show _ <$> readTimedText "MeterChange" "timeSignature" p.toJson = _
  rw [toJson, readTimedText_obj (by decide) h]
  rfl

theorem KeyPoint.read_toJson {p : KeyPoint α} (h : p.time.Storable) : read p.toJson = .ok p := by
  show _ <$> readTimedText "KeyChange" "keySignature" p.toJson = _
  rw [toJson, readTimedText_obj (by decide) h]
  rfl

theorem Connection.read_toJson (c : Connection) : read (c.toJson : Json α) = .ok c :=
  congrArg (Connection.mk <$> ·) (asList_map fun _ _ => rfl)

theorem Metadata.read_toJson (m : Metadata) : read (m.toJson : Json α) = .ok m := by
  refine asRecord_obj (d := m) ?_ rfl
  refine Fills.append ?_ (Fills.text (Metadata.mk m.name m.author) m.description fun _ => rfl)
  refine Fills.append ?_ (Fills.text (fun v => Metadata.mk m.name v .none) m.author fun _ => rfl)
  exact Fills.text (fun v => Metadata.mk v .none .none) m.name fun _ => rfl

theorem Json.Fills.metadata {put : ρ → String → Json α → Except DecodeError ρ} (set : Metadata → ρ)
    (m : Metadata)
    (hput : ∀ j, put (set .none) "metadata" j = (Metadata.read j >>= fun v => .ok (set v))) :
    Fills put (if m.isEmpty then [] else [("metadata", m.toJson)]) (set .none) (set m) := by
  split
  · rename_i h
    have hm : m = .none := by
      simp only [Metadata.isEmpty, Bool.and_eq_true, Option.isNone_iff_eq_none] at h
      obtain ⟨⟨hn, ha⟩, hd⟩ := h
      cases m
      simp_all [Metadata.none]
    rw [hm]
    exact fills_nil _
  · exact Fills.field set (Metadata.read_toJson m) (hput _)

theorem AutomationPoint.read_toJson {e : AutomationPoint α} (h : e.Storable) :
    read e.toJson = .ok e := by
  refine asRecord_obj (d := (some e.target, some e.time, some e.value, e.curve)) ?_ rfl
  refine Fills.append ?_ (Fills.text (fun v => (some e.target, some e.time, some e.value, v))
    e.curve fun _ => rfl)
  refine Fills.cons (e := (some e.target, none, none, none)) rfl ?_
  refine Fills.field_cons (fun v => (some e.target, some v, none, none))
    (WrittenTime.read_toJson h.time) rfl ?_
  exact Fills.field (fun v => (some e.target, some e.time, some v, none))
    (asScalar_ofScalar h.value) rfl

theorem Remark.read_toJson {a : Remark α} (h : a.time.Storable) : read a.toJson = .ok a := by
  refine asRecord_obj (d := (some a.text, some a.time, a.kind)) ?_ rfl
  refine Fills.append ?_ (Fills.text (fun v => (some a.text, some a.time, v))
    a.kind fun _ => rfl)
  refine Fills.cons (e := (some a.text, none, none)) rfl ?_
  exact Fills.field (fun v => (some a.text, some v, none)) (WrittenTime.read_toJson h) rfl

/-! The whole score. -/

namespace Score

theorem fills_header {s : Score α} (h : s.Storable) :
    Fills readField (textField "formatId" s.format ++ textField "version" s.version
      ++ scalarField "bpm" s.bpm
      ++ textField "keySignature" s.key ++ textField "timeSignature" s.meter
      ++ listField "tempoMap" (s.tempoMap.map TempoPoint.toJson)
      ++ listField "timeSignatureMap" (s.meterMap.map MeterPoint.toJson)
      ++ listField "keySignatureMap" (s.keyMap.map KeyPoint.toJson)) blank
      ⟨s.format, s.version, s.bpm, s.key, s.meter, s.tempoMap, s.meterMap, s.keyMap,
        .none, [], [], none, [], [], []⟩ := by
  refine Fills.append ?_ (Fills.list
    (fun v => Score.mk s.format s.version s.bpm s.key s.meter s.tempoMap s.meterMap v
      .none [] [] none [] [] [])
    (fun p hp => KeyPoint.read_toJson (h.keyMap p hp)) fun _ => rfl)
  refine Fills.append ?_ (Fills.list
    (fun v => Score.mk s.format s.version s.bpm s.key s.meter s.tempoMap v []
      .none [] [] none [] [] [])
    (fun p hp => MeterPoint.read_toJson (h.meterMap p hp)) fun _ => rfl)
  refine Fills.append ?_ (Fills.list
    (fun v => Score.mk s.format s.version s.bpm s.key s.meter v [] []
      .none [] [] none [] [] [])
    (fun p hp => TempoPoint.read_toJson (h.tempoMap p hp)) fun _ => rfl)
  refine Fills.append ?_ (Fills.text
    (fun v => Score.mk s.format s.version s.bpm s.key v [] [] []
      .none [] [] none [] [] [])
    s.meter fun _ => rfl)
  refine Fills.append ?_ (Fills.text
    (fun v => Score.mk s.format s.version s.bpm v none [] [] []
      .none [] [] none [] [] [])
    s.key fun _ => rfl)
  refine Fills.append ?_ (Fills.scalar
    (fun v => Score.mk s.format s.version v none none [] [] []
      .none [] [] none [] [] [])
    h.bpm fun _ => rfl)
  refine Fills.append (Fills.text
    (fun v => Score.mk v none none none none [] [] []
      .none [] [] none [] [] [])
    s.format fun _ => rfl) ?_
  cases s.version with
  | none => exact fills_nil _
  | some v => exact Fills.cons rfl (fills_nil _)

theorem read_toJson {s : Score α} (h : s.Storable) :
    read s.toJson = .ok { s with rejected := [] } := by
  refine asRecord_obj (d := { s with rejected := [] }) ?_ rfl
  refine Fills.append ?_ (Fills.list (fun v => { s with remarks := v, rejected := [] })
    (fun a ha => Remark.read_toJson (h.remarks a ha)) fun _ => rfl)
  refine Fills.append ?_ (Fills.list (fun v => { s with
    automation := v, remarks := [], rejected := [] })
    (fun e he => AutomationPoint.read_toJson (h.automation e he)) fun _ => rfl)
  refine Fills.append ?_ (Fills.optional (fun v => { s with
    parts := v, automation := [], remarks := [], rejected := [] })
    (fun ps hps => asOption_some rfl
      (asList_map fun p hp => Part.read_toJson (h.parts ps hps p hp))) fun _ => rfl)
  refine Fills.append ?_ (Fills.list (fun v => { s with
    connections := v, parts := none, automation := [], remarks := [], rejected := [] })
    (fun c _ => Connection.read_toJson c) fun _ => rfl)
  refine Fills.append ?_ (Fills.list (fun v => { s with
    graph := v, connections := [], parts := none, automation := [], remarks := [],
    rejected := [] })
    (fun n hn => GraphNode.read_toJson (h.graph n hn)) fun _ => rfl)
  refine Fills.append ?_ (Fills.metadata (fun v => { s with
    metadata := v, graph := [], connections := [], parts := none, automation := [],
    remarks := [], rejected := [] }) s.metadata fun _ => rfl)
  exact fills_header h

end Score

/-! A pitch that was written is settled. -/

theorem roundPitch_toJson (p : PitchValue) : roundPitch (p.toJson : Json α) = p.toJson := by
  cases p <;> rfl

theorem settlePitch_eq_self {fields : List (String × Json α)} (pitch : Option NotePitch)
    (h : lookup "note" fields = pitch.map NotePitch.toJson) : settlePitch fields = fields := by
  unfold settlePitch
  rw [h]
  cases pitch with
  | none => rfl
  | some pitch =>
    cases pitch with
    | single p => cases p <;> rfl
    | chord ps =>
      have hps : (ps.map PitchValue.toJson).map roundPitch =
          (ps.map PitchValue.toJson : List (Json α)) := by
        simp [roundPitch_toJson]
      show put "note" (.arr ((ps.map PitchValue.toJson).map roundPitch)) fields = fields
      rw [hps]
      exact put_eq_self h

theorem settleNote_toJson (n : Note α) : settleNote n.toJson = n.toJson := by
  refine congrArg Json.obj (settlePitch_eq_self n.note ?_)
  simp [lookup_append, lookup_optionalField, lookup_listField, timeField, scalarField, textField]

theorem settleNotes_toJson (p : Part α) : mapListAt "notes" settleNote p.toJson = p.toJson := by
  refine mapListAt_eq_self fun items h => ?_
  have hnotes : p.notes.map (fun ns => Json.arr (ns.map Note.toJson)) = some (.arr items) := by
    rw [← h]
    simp [lookup_append, lookup_optionalField, lookup_listField, lookup_unless, timeField,
      textField, lookup]
  obtain ⟨ns, -, hns⟩ := Option.map_eq_some_iff.mp hnotes
  cases hns
  simp [settleNote_toJson]

theorem settlePitches_toJson (s : Score α) : settlePitches s.toJson = s.toJson := by
  refine mapListAt_eq_self fun items h => ?_
  have hparts : s.parts.map (fun ps => Json.arr (ps.map Part.toJson)) = some (.arr items) := by
    rw [← h]
    simp [lookup_append, lookup_optionalField, lookup_listField, lookup_unless, scalarField,
      textField]
  obtain ⟨ps, -, hps⟩ := Option.map_eq_some_iff.mp hparts
  cases hps
  simp [settleNotes_toJson]

theorem isDocument_toJson {s : Score α} (h : s.format = some formatName) :
    isDocument s.toJson = true := by
  have hl : s.toJson.get? "formatId" = some (.str formatName) := by
    simp [Score.toJson, get?, lookup_append, lookup_optionalField, textField, h]
  simp [isDocument, hl, string?]

theorem readDocument_toJson {s : Score α} (h : s.Storable) :
    readDocument s.toJson = { s with rejected := [] } := by
  rw [readDocument, settlePitches_toJson, Score.read_toJson h]

/-- Writing a score and bringing its document into the form of a score again
loses and changes nothing but what was rejected before. -/
theorem normalize_toJson (s : Score α) (hformat : s.format = some formatName)
    (hs : s.Storable) : normalize s.toJson = { s with rejected := [] } := by
  rw [normalize_of_isDocument (isDocument_toJson hformat), readDocument_toJson hs]

theorem normalize_toJson_song :
    let song : Score Float := { Score.empty with
      bpm := some 90.5
      graph := [⟨"lead", .synth, [("detune", .int 3), ("volume", .real (-6))], none, none⟩]
      parts := some [{ Part.labelled "lead" (some [{ Note.none with
        note := some (.chord [.midi 60, .name "E4"])
        time := some (.seconds 0.25) }]) with synthRef := some "lead" }]
      rejected := ["tempoMap: damaged"] }
    song.format = some formatName ∧ song.Storable ∧
      normalize song.toJson = { song with rejected := [] } := by
  intro song
  have hnote : ∀ p ∈ some (NotePitch.chord [.midi 60, .name "E4"]), p.Storable := by
    intro p hp
    cases hp
    exact List.forall_mem_cons.mpr ⟨rfl, List.forall_mem_singleton.mpr trivial⟩
  have htime : ∀ t ∈ some (WrittenTime.seconds (0.25 : Float)), t.Storable := by
    intro t ht
    cases ht
    rfl
  have hsong : song.Storable := { Score.storable_blank with
    bpm := fun x hx => by cases hx; rfl
    graph := List.forall_mem_singleton.mpr
      ⟨DeviceKind.named_synth, List.pairwise_pair.mpr (by decide)⟩
    parts := fun ps hps => by
      cases hps
      refine List.forall_mem_singleton.mpr { Part.storable_labelled "lead" ?_ with }
      intro ns hns
      cases hns
      exact List.forall_mem_singleton.mpr { Note.storable_none with note := hnote, time := htime } }
  exact ⟨rfl, hsong, normalize_toJson song rfl hsong⟩

end Partitura
