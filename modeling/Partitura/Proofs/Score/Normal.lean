import Partitura.Proofs.Number.Binary64
import Partitura.Proofs.Score.RoundTrip
import Partitura.Proofs.Score.Salvage

/-!
# Normal forms are stable

Whatever shape an input has, its normal form is in the score format and can be
held by a document. So bringing the document of a normal form into normal form
changes nothing but the reports on what was rejected, which are then gone.
-/

namespace Partitura

open Json

variable {α : Type}

/-! Looking into fields. -/

theorem mem_getD_nil {β : Type} {o : Option (List β)} {x : β} (h : x ∈ o.getD []) :
    ∃ l, o = some l ∧ x ∈ l := by
  cases o with
  | none => cases h
  | some l => exact ⟨l, rfl, h⟩

theorem storable_inlineDeviceOf {j : Json α} {d : InlineDevice α} (h : inlineDeviceOf j = some d) :
    d.Storable := by
  unfold inlineDeviceOf at h
  obtain ⟨fields, -, h⟩ := Option.bind_eq_some_iff.mp h
  obtain ⟨kind, -, h⟩ := Option.bind_eq_some_iff.mp h
  cases h
  exact ⟨DeviceKind.named_parse kind, Sorted.ascending_ofList _⟩

theorem storable_effectOf {j : Json α} {e : EffectRef α} (h : effectOf j = some e) :
    e.Storable := by
  unfold effectOf at h
  split at h
  · cases h
    trivial
  · obtain ⟨d, hd, rfl⟩ := Option.map_eq_some_iff.mp h
    exact storable_inlineDeviceOf hd

theorem storable_synthOf (graph : List (GraphNode α)) (j : Option (Json α)) :
    ∀ d ∈ (synthOf graph j).2, d.Storable := by
  unfold synthOf
  split
  · split
    · exact nofun
    · rintro d hd
      cases hd
      exact ⟨DeviceKind.named_parse _, Sorted.ascending_nil⟩
  · exact fun d hd => storable_inlineDeviceOf hd
  · exact nofun

variable [Scalar α]

theorem wellFormed_firstOf {fields : Fields α} (hf : (Json.obj fields).WellFormed)
    {keys : List String} {j : Json α} (h : firstOf fields keys = some j) : j.WellFormed := by
  obtain ⟨key, -, h⟩ := List.exists_of_findSome?_eq_some h
  exact hf.lookup (Option.filter_eq_some_iff.mp h).1

theorem mem_readable {β : Type} {read : Json α → Except DecodeError β} {P : β → Prop}
    (hread : Yields read P) {fields : Fields α} (hf : (Json.obj fields).WellFormed)
    (key : String) : ∀ v ∈ readable read (Json.lookup key fields), P v := by
  intro v hv
  obtain ⟨item, hitem, hv⟩ := List.mem_filterMap.mp hv
  obtain ⟨items, ha, hitem⟩ := mem_getD_nil hitem
  obtain ⟨j, hj, ha⟩ := Option.bind_eq_some_iff.mp ha
  exact hread ((hf.lookup hj).array? ha item hitem) (toOption_eq_some hv)

/-! Scores. -/

/-- A score in the score format that a document can hold. -/
structure Score.Normal (s : Score α) : Prop where
  format : s.format = some formatName
  storable : s.Storable

theorem normal_empty : (Score.empty : Score α).Normal :=
  ⟨rfl, { Score.storable_blank with }⟩

theorem Score.Normal.withParts {s : Score α} (hs : s.Normal) {parts : List (Part α)}
    (hp : ∀ p ∈ parts, p.Storable) : Score.Normal { s with parts := some parts } where
  format := hs.format
  storable := { hs.storable with parts := fun _ h => by cases h; exact hp }

theorem storable_playThrough (id : String) {p : Part α} (hp : p.Storable) :
    (p.playThrough id).Storable := by
  unfold Part.playThrough
  split
  · exact hp
  · exact { hp with }

theorem storable_partsThrough (id : String) {s : Score α} (hs : s.Storable) :
    ∀ ps ∈ s.parts.map (List.map (Part.playThrough id)), ∀ p ∈ ps, p.Storable := by
  intro ps hps p hp
  obtain ⟨qs, hqs, rfl⟩ := Option.map_eq_some_iff.mp hps
  obtain ⟨q, hq, rfl⟩ := List.mem_map.mp hp
  exact storable_playThrough id (hs.parts qs hqs q hq)

theorem normal_assignSynths {s : Score α} (hs : s.Normal) : s.assignSynths.Normal := by
  unfold Score.assignSynths
  split
  · exact hs
  · dsimp only
    split
    · exact ⟨hs.format, { hs.storable with parts := storable_partsThrough _ hs.storable }⟩
    · split
      · refine ⟨hs.format, { hs.storable with
          graph := fun n hn => ?_
          parts := storable_partsThrough _ hs.storable }⟩
        rw [List.mem_singleton.mp hn]
        exact ⟨DeviceKind.named_synth, Sorted.ascending_nil⟩
      · exact hs

/-! Notes. -/

theorem storable_barsAndBeats (beats : α) : (barsAndBeats beats).Storable := trivial

theorem storable_noteValue (beats : α) : (noteValue beats).Storable := trivial

theorem storable_beatTime {ofBeats : α → WrittenTime α} (hb : ∀ x, (ofBeats x).Storable)
    {j : Json α} {t : WrittenTime α} (h : beatTime ofBeats j = some t) : t.Storable := by
  unfold beatTime at h
  split at h
  · cases h
    trivial
  · obtain ⟨x, -, rfl⟩ := Option.map_eq_some_iff.mp h
    exact hb x

variable [LawfulScalar α]

theorem storable_pitchOf {j : Json α} {p : PitchValue} (h : pitchOf j = some p) : p.Storable := by
  unfold pitchOf at h
  split at h
  · cases h
    trivial
  · obtain ⟨x, -, rfl⟩ := Option.map_eq_some_iff.mp h
    exact decide_eq_true (Scalar.integer_mem _)

theorem storable_notePitchOf {j : Json α} {p : NotePitch} (h : notePitchOf j = some p) :
    p.Storable := by
  unfold notePitchOf at h
  split at h
  · cases h
    intro v hv
    obtain ⟨item, -, hv⟩ := List.mem_filterMap.mp hv
    exact storable_pitchOf hv
  · obtain ⟨v, hv, rfl⟩ := Option.map_eq_some_iff.mp h
    intro w hw
    rw [List.mem_singleton.mp hw]
    exact storable_pitchOf hv

theorem isFinite_velocityOf {v : α} (h : Scalar.isFinite v = true) :
    Scalar.isFinite (velocityOf v) = true := by
  refine Scalar.isFinite_clampTo_unit _ ?_
  split
  · exact LawfulScalar.isUndefined_div v h
  · exact LawfulScalar.isUndefined_of_isFinite v h

theorem storable_noteOf {fields : Fields α} (hf : (Json.obj fields).WellFormed) :
    (noteOf fields).Storable where
  note p hp := by
    obtain ⟨j, -, hp⟩ := Option.bind_eq_some_iff.mp hp
    exact storable_notePitchOf hp
  time t ht := by
    obtain ⟨j, -, ht⟩ := Option.bind_eq_some_iff.mp ht
    exact storable_beatTime storable_barsAndBeats ht
  duration t ht := by
    obtain ⟨j, -, ht⟩ := Option.bind_eq_some_iff.mp ht
    exact storable_beatTime storable_noteValue ht
  velocity x hx := by
    obtain ⟨v, hv, rfl⟩ := Option.map_eq_some_iff.mp hx
    obtain ⟨j, hj, hv⟩ := Option.bind_eq_some_iff.mp hv
    exact isFinite_velocityOf ((wellFormed_firstOf hf hj).isFinite_of_scalar? hv)
  microtuning x hx := by
    obtain ⟨j, hj, hx⟩ := Option.bind_eq_some_iff.mp hx
    exact (wellFormed_firstOf hf hj).isFinite_of_scalar? hx
  channel c hc := by
    obtain ⟨j, -, hc⟩ := Option.bind_eq_some_iff.mp hc
    exact isInt64_of_int64? hc
  modulations := mem_readable yields_modulation hf "modulations"

theorem storable_notesOf {j : Json α} (hj : j.WellFormed) : ∀ n ∈ notesOf j, n.Storable := by
  intro n hn
  obtain ⟨item, hitem, hn⟩ := List.mem_filterMap.mp hn
  obtain ⟨items, ha, hitem⟩ := mem_getD_nil hitem
  obtain ⟨fields, hfields, rfl⟩ := Option.map_eq_some_iff.mp hn
  exact storable_noteOf ((hj.array? ha item hitem).object? hfields)

/-! Parts. -/

theorem storable_plainTime {j : Json α} (hj : j.WellFormed) {t : WrittenTime α}
    (h : plainTime j = some t) : t.Storable := by
  unfold plainTime at h
  split at h
  · cases h
    trivial
  · obtain ⟨x, hx, rfl⟩ := Option.map_eq_some_iff.mp h
    exact hj.isFinite_of_scalar? hx

theorem storable_loopOf {j : Option (Json α)} (hj : ∀ i ∈ j, i.WellFormed) :
    (loopOf j).Storable := by
  unfold loopOf
  split
  · trivial
  · rename_i i _
    cases ht : plainTime i with
    | none => trivial
    | some t => exact storable_plainTime (hj i rfl) ht
  · trivial

theorem storable_partOf (graph : List (GraphNode α)) (fallback : String) {fields : Fields α}
    (hf : (Json.obj fields).WellFormed) : (partOf graph fallback fields).Storable where
  synth := storable_synthOf graph _
  effects e he := by
    obtain ⟨item, -, he⟩ := List.mem_filterMap.mp he
    exact storable_effectOf he
  notes ns hns := by
    obtain ⟨j, hj, rfl⟩ := Option.map_eq_some_iff.mp hns
    exact storable_notesOf (wellFormed_firstOf hf hj)
  looping := storable_loopOf fun _ hj => hf.lookup hj
  loopEnd t ht := by
    obtain ⟨j, hj, ht⟩ := Option.bind_eq_some_iff.mp ht
    exact storable_plainTime (wellFormed_firstOf hf hj) ht
  midiChannel c hc := by
    obtain ⟨j, -, hc⟩ := Option.bind_eq_some_iff.mp hc
    exact isInt64_of_int64? hc

/-! Scores from other shapes. -/

theorem normal_headerOf {fields : Fields α} (hf : (Json.obj fields).WellFormed) :
    (headerOf fields).Normal where
  format := rfl
  storable := {
    bpm x hx := by
      cases hx
      cases hb : (firstOf fields ["bpm", "tempo"]).bind Json.scalar? with
      | none => exact LawfulScalar.isFinite_ofInt _ (by decide) (by decide)
      | some x =>
        obtain ⟨j, hj, hx⟩ := Option.bind_eq_some_iff.mp hb
        exact (wellFormed_firstOf hf hj).isFinite_of_scalar? hx
    tempoMap := mem_readable yields_tempoPoint hf "tempoMap"
    meterMap := mem_readable yields_meterPoint hf "timeSignatureMap"
    keyMap := mem_readable yields_keyPoint hf "keySignatureMap"
    graph := mem_readable yields_graphNode hf "audioGraph"
    parts := nofun
    automation := mem_readable yields_automationPoint hf "automation"
    remarks := mem_readable yields_remark hf "annotations" }

theorem storable_labelled (label : String) {j : Json α} (hj : j.WellFormed) :
    (Part.labelled label (some (notesOf j))).Storable :=
  Part.storable_labelled label fun _ hns => by
    cases hns
    exact storable_notesOf hj

theorem storable_trackOf (graph : List (GraphNode α)) {track : String × Json α}
    (h : track.2.WellFormed) : (trackOf graph track).Storable := by
  unfold trackOf
  split
  · exact storable_partOf graph _ h
  · exact storable_labelled _ h

theorem storable_listedPart (graph : List (GraphNode α)) {item : Json α × Nat}
    (h : item.1.WellFormed) : (listedPart graph item).Storable := by
  unfold listedPart
  dsimp only
  split
  · rename_i fields hitem
    exact storable_partOf graph _ (hitem ▸ h)
  · cases item.1.array? with
    | none => exact Part.storable_labelled _ nofun
    | some items => exact storable_labelled _ h

theorem normal_tracks {j : Json α} (hj : j.WellFormed) {s : Score α}
    (h : trackShape.read? j = some s) : s.Normal := by
  obtain ⟨fields, hf, h⟩ := Option.bind_eq_some_iff.mp h
  obtain ⟨tracks, ht, h⟩ := Option.bind_eq_some_iff.mp h
  obtain ⟨i, hi, ht⟩ := Option.bind_eq_some_iff.mp ht
  cases h
  have hfields := hj.object? hf
  refine normal_assignSynths ((normal_headerOf hfields).withParts fun p hp => ?_)
  obtain ⟨track, htrack, rfl⟩ := List.mem_map.mp hp
  exact storable_trackOf _ (((hfields.lookup hi).object? ht).fields track htrack)

theorem normal_parts {j : Json α} (hj : j.WellFormed) {s : Score α}
    (h : partShape.read? j = some s) : s.Normal := by
  obtain ⟨fields, hf, h⟩ := Option.bind_eq_some_iff.mp h
  obtain ⟨items, hitems, h⟩ := Option.bind_eq_some_iff.mp h
  obtain ⟨key, -, hitems⟩ := List.exists_of_findSome?_eq_some hitems
  obtain ⟨i, hi, ha⟩ := Option.bind_eq_some_iff.mp hitems
  cases h
  have hfields := hj.object? hf
  refine (normal_headerOf hfields).withParts fun p hp => ?_
  obtain ⟨item, hitem, rfl⟩ := List.mem_map.mp hp
  exact storable_listedPart _ ((hfields.lookup hi).array? ha _ (List.fst_mem_of_mem_zipIdx hitem))

theorem normal_noteList {j : Json α} (hj : j.WellFormed) {s : Score α}
    (h : noteListShape.read? j = some s) : s.Normal := by
  obtain ⟨items, -, h⟩ := Option.bind_eq_some_iff.mp h
  dsimp only at h
  split at h
  · cases h
    have hnone : (Json.obj ([] : Fields α)).WellFormed := .obj List.Pairwise.nil nofun
    refine normal_assignSynths ((normal_headerOf hnone).withParts fun p hp => ?_)
    rw [List.mem_singleton.mp hp]
    exact storable_labelled _ hj
  · cases h

/-! Scores from documents. -/

theorem storable_salvage {fields : List (String × Json α)} (hf : (Json.obj fields).WellFormed) :
    (salvage (.obj fields)).Storable := by
  obtain ⟨t, ht, hs⟩ := salvage_obj fields
  have hkept : ∀ g ∈ fields.flatMap keptOf, g.2.WellFormed := by
    intro g hg
    obtain ⟨f, hff, hg⟩ := List.mem_flatMap.mp hg
    exact wellFormed_keptOf (hf.fields f hff) hg
  have hstorable : t.Storable := by
    unfold Fills at ht
    refine foldlM_ok ?_ hkept Score.storable_blank ht
    exact fun _ _ _ _ hj hd h => Score.storable_readField hj hd h
  rw [hs]
  exact { hstorable with }

theorem normal_readDocument {j : Json α} (hj : j.WellFormed) (hd : isDocument j = true) :
    (readDocument j).Normal := by
  obtain ⟨fields, rfl, hl⟩ := lookup_format_of_isDocument hd
  obtain ⟨settled, hsettled, -⟩ := settlePitches_obj fields
  have hwf := wellFormed_settlePitches hj
  rw [hsettled] at hwf
  -- Settling pitches touches no format, and salvaging keeps what can be read alone.
  have hformat : ("formatId", .str formatName) ∈ settled := by
    rw [← lookup_mapListAt (by decide) _ hsettled] at hl
    exact mem_of_lookup hl
  rw [readDocument_eq_salvage hsettled]
  exact ⟨(salvaged settled hwf.keys).field _ hformat _ (Score.read_single _),
    storable_salvage hwf⟩

theorem normal_normalize {j : Json α} (hj : j.WellFormed) : (normalize j).Normal := by
  obtain ⟨shape, hshape, h⟩ := exists_shape j
  simp only [shapes, List.mem_cons, List.not_mem_nil, or_false] at hshape
  rcases hshape with rfl | rfl | rfl | rfl | rfl
  · simp only [documentShape] at h
    split at h
    · rename_i hd
      rw [← Option.some.inj h]
      exact normal_readDocument hj hd
    · cases h
  · exact normal_tracks hj h
  · exact normal_parts hj h
  · exact normal_noteList hj h
  · rw [← Option.some.inj h]
    exact normal_empty

/-- The normal form of the document of a normal form is the normal form itself,
without its reports; so it is the same exactly if nothing was rejected. -/
theorem normalize_normalize (x : Json α) (hx : x.WellFormed) :
    normalize (normalize x).toJson = { normalize x with rejected := [] } ∧
      (normalize (normalize x).toJson = normalize x ↔ (normalize x).rejected = []) := by
  obtain ⟨hformat, hstorable⟩ := normal_normalize hx
  have hagain : normalize (normalize x).toJson = { normalize x with rejected := [] } := by
    rw [normalize_of_isDocument (isDocument_toJson hformat), readDocument_toJson hstorable]
  refine ⟨hagain, ?_⟩
  rw [hagain]
  constructor
  · intro h
    rw [← h]
  · intro h
    rw [← h]

/-- A key that is not text is reported, and the report is not part of the document. -/
theorem normalize_normalize_damaged :
    let x : Json Float :=
      .obj [("formatId", .str formatName), ("bpm", .real 90.5), ("keySignature", .int 3)]
    let kept : Score Float := { Score.blank with format := some formatName, bpm := some 90.5 }
    x.WellFormed ∧
    normalize x = { kept with
      rejected := ["keySignature: invalid type: integer `3`, expected a string"] } ∧
    normalize (normalize x).toJson = kept ∧ normalize (normalize x).toJson ≠ normalize x := by
  intro x kept
  have hx : x.WellFormed := .obj (by decide) (by
    simp only [List.forall_mem_cons]
    exact ⟨.str _, .real rfl, .int (by decide) (by decide), nofun⟩)
  have hread : normalize x = { kept with
      rejected := ["keySignature: invalid type: integer `3`, expected a string"] } := rfl
  obtain ⟨hagain, hsame⟩ := normalize_normalize x hx
  refine ⟨hx, hread, ?_, fun heq => ?_⟩
  · rw [hagain, hread]
    rfl
  · have hnone := hsame.mp heq
    rw [hread] at hnone
    exact List.cons_ne_nil _ _ hnone

end Partitura
