import Partitura.Score.Check

/-!
# Scores that pass the check

What a score needs to be performed is said without reference to the checker:
complete notes, parts that have an instrument, edges with two ends, and nothing
left unread. The check accepts exactly the scores that have it. Each checking
function has one lemma that says when its findings hold no error; the warnings
fall out there and are not looked at again.
-/

namespace Partitura

variable {α : Type}

def SoundChannel (channel : Option Int) : Prop := ∀ n ∈ channel, 0 ≤ n ∧ n ≤ 15

structure Note.Sound (n : Note α) : Prop where
  time : n.time.isSome
  duration : n.duration.isSome
  pitch : n.note.isSome
  channel : SoundChannel n.channel
  modulations : ∀ m ∈ n.modulations, ∀ name, m.kind ≠ .unknown name

structure Part.Sound (p : Part α) : Prop where
  synth : p.synthRef.isSome ∨ p.synth.isSome
  channel : SoundChannel p.midiChannel
  notes : ∃ notes, p.notes = some notes ∧ ∀ n ∈ notes, n.Sound

structure Score.Sound [Scalar α] (s : Score α) : Prop where
  rejected : s.rejected = []
  format : s.format.isSome
  version : s.version.isSome
  tempo : ∃ bpm, s.bpm = some bpm ∧ Scalar.isFinite bpm = true ∧ 0 < bpm
  nodes : (s.graph.map GraphNode.id).Nodup
  connections : ∀ c ∈ s.connections, c.ends.length = 2
  parts : ∃ parts, s.parts = some parts ∧ ∀ p ∈ parts, p.Sound

def Clean (findings : List Finding) : Prop := ∀ f ∈ findings, f.error? = none

theorem success_ofFindings (findings : List Finding) :
    (Report.ofFindings findings).success = true ↔ Clean findings := by
  simp [Report.ofFindings, Clean]

@[simp] theorem clean_nil : Clean [] := by simp [Clean]

@[simp] theorem clean_append (fs gs : List Finding) : Clean (fs ++ gs) ↔ Clean fs ∧ Clean gs := by
  simp [Clean, or_imp, forall_and]

@[simp] theorem clean_error (message : String) : ¬ Clean [.error message] := by
  simp [Clean, Finding.error?]

@[simp] theorem clean_warning (message : String) : Clean [.warning message] := by
  simp [Clean, Finding.error?]

@[simp] theorem clean_errors (messages : List String) :
    Clean (messages.map .error) ↔ messages = [] := by
  cases messages <;> simp [Clean, Finding.error?]

@[simp] theorem clean_findIf_error (condition : Bool) (message : String) :
    Clean (findIf condition (.error message)) ↔ condition = false := by
  cases condition <;> simp [findIf]

@[simp] theorem clean_findIf_warning (condition : Bool) (message : String) :
    Clean (findIf condition (.warning message)) := by
  cases condition <;> simp [findIf]

theorem clean_flatMap {β : Type} (items : List β) (check : β → List Finding) :
    Clean (items.flatMap check) ↔ ∀ x ∈ items, Clean (check x) := by
  simp only [Clean, List.mem_flatMap]
  exact ⟨fun h x hx f hf => h f ⟨x, hx, hf⟩, fun h f ⟨x, hx, hf⟩ => h x hx f hf⟩

theorem mem_eachEntry {β : Type} {items : List β} {check : Nat → β → List Finding} {f : Finding} :
    f ∈ eachEntry items check ↔ ∃ i x, items[i]? = some x ∧ f ∈ check i x := by
  rw [eachEntry, List.mem_flatMap]
  constructor
  · rintro ⟨⟨x, i⟩, hx, hf⟩
    exact ⟨i, x, List.mk_mem_zipIdx_iff_getElem?.mp hx, hf⟩
  · rintro ⟨i, x, hx, hf⟩
    exact ⟨(x, i), List.mk_mem_zipIdx_iff_getElem?.mpr hx, hf⟩

theorem clean_eachEntry {β : Type} (items : List β) (check : Nat → β → List Finding) :
    Clean (eachEntry items check) ↔ ∀ i x, items[i]? = some x → Clean (check i x) := by
  simp only [Clean, mem_eachEntry]
  exact ⟨fun h i x hx f hf => h f ⟨i, x, hx, hf⟩, fun h f ⟨i, x, hx, hf⟩ => h i x hx f hf⟩

theorem clean_eachEntry_of {β : Type} {items : List β} {check : Nat → β → List Finding}
    {P : β → Prop} (h : ∀ i x, Clean (check i x) ↔ P x) :
    Clean (eachEntry items check) ↔ ∀ x ∈ items, P x := by
  rw [clean_eachEntry]
  simp only [h, List.mem_iff_getElem?]
  exact ⟨fun hc x ⟨i, hi⟩ => hc i x hi, fun hc i x hi => hc x ⟨i, hi⟩⟩

/-! Notes. -/

theorem clean_checkChannel (path : String) (channel : Option Int) :
    Clean (checkChannel path channel) ↔ SoundChannel channel := by
  cases channel <;> simp [checkChannel, SoundChannel, inRange]

theorem clean_checkPitchValue (path : String) (p : PitchValue) :
    Clean (checkPitchValue path p) := by
  cases p <;> simp [checkPitchValue]

theorem clean_checkNotePitch (path : String) (pitch : Option NotePitch) :
    Clean (checkNotePitch path pitch) ↔ pitch.isSome := by
  fun_cases checkNotePitch path pitch with
  | case1 => simp
  | case2 => simp
  | case3 pitch _ => simp [clean_flatMap, clean_checkPitchValue]

theorem clean_checkVelocity [Scalar α] (path : String) (velocity : Option α) :
    Clean (checkVelocity path velocity) := by
  cases velocity <;> simp [checkVelocity]

theorem clean_checkModulation (path : String) (m : Modulation α) :
    Clean (checkModulation path m) ↔ ∀ name, m.kind ≠ .unknown name := by
  unfold checkModulation
  split
  · rename_i name hk
    simp [hk]
  · rename_i hk
    split <;> simp [hk]
  · rename_i hk _
    simpa using hk

theorem clean_checkNote [Scalar α] (path : String) (n : Note α) :
    Clean (checkNote path n) ↔ n.Sound := by
  have hm : Clean (eachEntry n.modulations fun k m =>
      checkModulation (path ++ "." ++ entryPath "modulations" k) m) ↔
      ∀ m ∈ n.modulations, ∀ name, m.kind ≠ .unknown name :=
    clean_eachEntry_of fun _ m => clean_checkModulation _ m
  simp only [checkNote, clean_append, clean_findIf_error, clean_checkNotePitch,
    clean_checkVelocity, clean_checkChannel, hm, Option.isNone_eq_false_iff, and_true]
  constructor
  · rintro ⟨⟨⟨⟨ht, hd⟩, hp⟩, hc⟩, hm⟩
    exact ⟨ht, hd, hp, hc, hm⟩
  · rintro ⟨ht, hd, hp, hc, hm⟩
    exact ⟨⟨⟨⟨ht, hd⟩, hp⟩, hc⟩, hm⟩

namespace Score

/-! Parts. -/

theorem clean_checkSynth (s : Score α) (path : String) (p : Part α) :
    Clean (s.checkSynth path p) ↔ p.synthRef.isSome ∨ p.synth.isSome := by
  fun_cases checkSynth s path p <;> simp_all

theorem clean_checkEffect (s : Score α) (path : String) (e : EffectRef α) :
    Clean (s.checkEffect path e) := by
  cases e <;> simp [checkEffect]

theorem clean_checkPart [Scalar α] (s : Score α) (i : Nat) (p : Part α) :
    Clean (s.checkPart i p) ↔ p.Sound := by
  have he : Clean (eachEntry p.effects fun j e =>
      s.checkEffect (entryPath "sequences" i ++ "." ++ entryPath "effects" j) e) :=
    (clean_eachEntry _ _).mpr fun _ e _ => clean_checkEffect s _ e
  unfold checkPart
  simp only [clean_append, clean_checkSynth, he, clean_checkChannel, and_true]
  refine (and_congr (and_congr Iff.rfl (d := True) ?loop)
    (d := ∃ notes, p.notes = some notes ∧ ∀ n ∈ notes, n.Sound) ?notes).trans ?sound
  case loop => split <;> simp
  case notes =>
    cases p.notes with
    | none => simp
    | some notes =>
      simpa using clean_eachEntry_of fun j n =>
        clean_checkNote (entryPath "sequences" i ++ "." ++ entryPath "notes" j) n
  case sound =>
    exact ⟨fun ⟨⟨⟨hs, hc⟩, _⟩, hn⟩ => ⟨hs, hc, hn⟩, fun ⟨hs, hc, hn⟩ => ⟨⟨⟨hs, hc⟩, trivial⟩, hn⟩⟩

/-! The graph and the header. -/

theorem clean_checkNode (s : Score α) (i : Nat) (n : GraphNode α) :
    Clean (s.checkNode i n) ↔ ∀ j m, j < i → s.graph[j]? = some m → m.id ≠ n.id := by
  simp only [checkNode, clean_append, clean_findIf_error, clean_findIf_warning, and_true,
    List.any_eq_false, beq_iff_eq]
  -- The checker looks among the first `i` nodes; here they are named by their positions.
  constructor
  · intro h j m hj hm
    exact h m (List.mem_iff_getElem?.mpr ⟨j, by rw [List.getElem?_take_of_lt hj, hm]⟩)
  · intro h m hm
    obtain ⟨j, hj⟩ := List.mem_iff_getElem?.mp hm
    by_cases hlt : j < i
    · rw [List.getElem?_take_of_lt hlt] at hj
      exact h j m hlt hj
    · rw [List.getElem?_take_eq_none (Nat.le_of_not_lt hlt)] at hj
      cases hj

theorem clean_nodes (s : Score α) :
    Clean (eachEntry s.graph s.checkNode) ↔ (s.graph.map GraphNode.id).Nodup := by
  rw [clean_eachEntry, List.Nodup, List.pairwise_iff_getElem]
  simp only [clean_checkNode, List.getElem_map, List.length_map]
  constructor
  · intro h i j hi hj hij
    exact h j _ (List.getElem?_eq_getElem hj) i _ hij (List.getElem?_eq_getElem hi)
  · intro h j n hn i m hij hm
    obtain ⟨hj, rfl⟩ := List.getElem?_eq_some_iff.mp hn
    obtain ⟨hi, rfl⟩ := List.getElem?_eq_some_iff.mp hm
    exact h i j hi hj hij

theorem endpoints?_isSome (c : Connection) : c.endpoints?.isSome ↔ c.ends.length = 2 := by
  obtain ⟨ends⟩ := c
  match ends with
  | [] => simp [Connection.endpoints?]
  | [_] => simp [Connection.endpoints?]
  | [_, _] => simp [Connection.endpoints?]
  | _ :: _ :: _ :: _ => simp [Connection.endpoints?]

theorem clean_checkConnection (s : Score α) (i : Nat) (c : Connection) :
    Clean (s.checkConnection i c) ↔ c.ends.length = 2 := by
  rw [← endpoints?_isSome]
  unfold checkConnection
  cases c.endpoints? <;> simp

variable [Scalar α]

theorem clean_checkTempo (s : Score α) : Clean s.checkTempo ↔
    ∃ bpm, s.bpm = some bpm ∧ Scalar.isFinite bpm = true ∧ 0 < bpm := by
  unfold checkTempo
  cases s.bpm with
  | none => simp
  | some bpm =>
    have hp : Scalar.isPositive bpm = true ↔ Scalar.isFinite bpm = true ∧ 0 < bpm := by
      simp [Scalar.isPositive]
    dsimp only
    split
    · rename_i h
      simpa [← hp] using h
    · rename_i h
      simpa [← hp] using h

theorem clean_checkHeader (s : Score α) : Clean s.checkHeader ↔
    s.rejected = [] ∧ s.format.isSome ∧ s.version.isSome ∧
      ∃ bpm, s.bpm = some bpm ∧ Scalar.isFinite bpm = true ∧ 0 < bpm := by
  have ht : Clean (eachEntry s.tempoMap fun i p =>
      findIf (!Scalar.isPositive p.bpm) (.warning (entryPath "tempoMap" i ++ ": bpm "
        ++ Scalar.plainText p.bpm ++ " is not positive and will be ignored"))) :=
    (clean_eachEntry _ _).mpr fun _ _ _ => clean_findIf_warning _ _
  simp only [checkHeader, clean_append, clean_errors, clean_findIf_error, clean_checkTempo, ht,
    Option.isNone_eq_false_iff, and_true, and_assoc]

theorem clean_findings (s : Score α) : Clean s.findings ↔ s.Sound := by
  have hc : Clean (eachEntry s.connections s.checkConnection) ↔
      ∀ c ∈ s.connections, c.ends.length = 2 := clean_eachEntry_of s.clean_checkConnection
  unfold findings
  simp only [clean_append, clean_checkHeader, clean_nodes, hc]
  refine (and_congr_right' (c := ∃ parts, s.parts = some parts ∧ ∀ p ∈ parts, p.Sound)
    ?parts).trans ?sound
  case parts =>
    cases s.parts with
    | none => simp
    | some parts => simpa using clean_eachEntry_of s.clean_checkPart
  case sound =>
    constructor
    · rintro ⟨⟨⟨⟨hr, hf, hv, ht⟩, hn⟩, hc⟩, hp⟩
      exact ⟨hr, hf, hv, ht, hn, hc, hp⟩
    · rintro ⟨hr, hf, hv, ht, hn, hc, hp⟩
      exact ⟨⟨⟨⟨hr, hf, hv, ht⟩, hn⟩, hc⟩, hp⟩

/-- A score passes exactly if it is sound, and no warning has a part in it: the
findings give the same verdict when any of the warnings are left out. -/
theorem check_success_iff (s : Score α) :
    (s.check.success = true ↔ s.Sound) ∧
      ∀ keep : String → Bool,
        (Report.ofFindings (s.findings.filter fun f => f.warning?.all keep)).success =
          s.check.success := by
  refine ⟨(success_ofFindings _).trans s.clean_findings, fun keep => ?_⟩
  rw [Bool.eq_iff_iff, check, success_ofFindings, success_ofFindings]
  simp only [Clean, List.mem_filter]
  constructor
  · intro h f hf
    cases f with
    | error message => exact h (.error message) ⟨hf, rfl⟩
    | warning message => rfl
  · exact fun h f hf => h f hf.1

end Score

end Partitura
