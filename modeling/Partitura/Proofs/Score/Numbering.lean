import Partitura.Proofs.Numbered
import Partitura.Proofs.Performance.Reports
import Partitura.Proofs.Performance.TimePlaces
import Partitura.Proofs.Score.Salvage

/-!
# The numbers of parts in a report

Every message on a part opens with the path of the part, and no other message does. But there are
two ways of counting: a part that cannot be read has its number in the document, and a part that can
be read has its number among those. So a report gives a part another number than its own if it
finds fault with a part that comes after an unreadable one.
-/

namespace Partitura

open Json

/-! ## Messages -/

def Finding.message : Finding → String
  | error m => m
  | warning m => m

def Report.messages (r : Report) : List String := r.errors ++ r.warnings

theorem mem_messages_ofFindings {findings : List Finding} {message : String} :
    message ∈ (Report.ofFindings findings).messages ↔ ∃ f ∈ findings, f.message = message := by
  simp only [Report.messages, Report.ofFindings, List.mem_append, List.mem_filterMap]
  constructor
  · rintro (⟨f, hf, hm⟩ | ⟨f, hf, hm⟩)
    · cases f with
      | error m => exact ⟨_, hf, Option.some.inj hm⟩
      | warning m => cases hm
    · cases f with
      | error m => cases hm
      | warning m => exact ⟨_, hf, Option.some.inj hm⟩
  · rintro ⟨f, hf, rfl⟩
    cases f with
    | error m => exact .inl ⟨_, hf, rfl⟩
    | warning m => exact .inr ⟨_, hf, rfl⟩

def Said (P : String → Prop) (findings : List Finding) : Prop := ∀ f ∈ findings, P f.message

section Said

variable {P : String → Prop}

@[simp] theorem said_nil : Said P [] := nofun

@[simp] theorem said_append (fs gs : List Finding) : Said P (fs ++ gs) ↔ Said P fs ∧ Said P gs := by
  simp [Said, or_imp, forall_and]

@[simp] theorem said_error (message : String) : Said P [.error message] ↔ P message := by
  simp [Said, Finding.message]

@[simp] theorem said_warning (message : String) : Said P [.warning message] ↔ P message := by
  simp [Said, Finding.message]

theorem said_findIf_error {message : String} (h : P message) (condition : Bool) :
    Said P (findIf condition (.error message)) := by
  cases condition <;> simp [findIf, h]

theorem said_findIf_warning {message : String} (h : P message) (condition : Bool) :
    Said P (findIf condition (.warning message)) := by
  cases condition <;> simp [findIf, h]

theorem said_flatMap {β : Type} {items : List β} {check : β → List Finding}
    (h : ∀ x ∈ items, Said P (check x)) : Said P (items.flatMap check) := by
  intro f hf
  obtain ⟨x, hx, hf⟩ := List.mem_flatMap.mp hf
  exact h x hx f hf

theorem said_eachEntry {β : Type} {check : Nat → β → List Finding} (items : List β)
    (h : ∀ i x, Said P (check i x)) : Said P (eachEntry items check) :=
  said_flatMap fun x _ => h x.2 x.1

end Said

/-! ## Messages on parts -/

variable {α : Type} [Scalar α]

section Paths

variable {a path : String}

omit [Scalar α] in
theorem said_checkChannel (h : Opens a path) (channel : Option Int) :
    Said (Opens a) (checkChannel path channel) := by
  cases channel with
  | none => exact said_nil
  | some n => exact said_findIf_error (h.append_three _ _ _) _

theorem said_checkNotePitch (h : Opens a path) (pitch : Option NotePitch) :
    Said (Opens a) (checkNotePitch path pitch) := by
  have hvalue (p : PitchValue) : Said (Opens a) (checkPitchValue (path ++ ".note") p) := by
    cases p with
    | midi n => exact said_findIf_warning ((h.append_three _ _ _).append _) _
    | name _ => exact said_nil
  fun_cases checkNotePitch path pitch with
  | case1 => exact (said_error _).mpr (h.append _)
  | case2 => exact (said_warning _).mpr (h.append _)
  | case3 pitch _ => exact said_flatMap fun p _ => hvalue p

theorem said_checkVelocity (h : Opens a path) (velocity : Option α) :
    Said (Opens a) (checkVelocity path velocity) := by
  cases velocity with
  | none => exact said_nil
  | some v => exact said_findIf_warning (h.append_three _ _ _) _

omit [Scalar α] in
theorem said_checkModulation (h : Opens a path) (m : Modulation α) :
    Said (Opens a) (checkModulation path m) := by
  unfold checkModulation
  split
  · exact (said_error _).mpr (h.append_three _ _ _)
  · split
    · exact (said_warning _).mpr (h.append _)
    · exact said_findIf_warning (h.append_three _ _ _) _
  · exact said_nil

theorem said_checkNote (h : Opens a path) (n : Note α) : Said (Opens a) (checkNote path n) := by
  simp only [checkNote, said_append]
  refine ⟨⟨⟨⟨⟨?_, ?_⟩, ?_⟩, ?_⟩, ?_⟩, ?_⟩
  · exact said_findIf_error (h.append _) _
  · exact said_findIf_error (h.append _) _
  · exact said_checkNotePitch h n.note
  · exact said_checkVelocity h n.velocity
  · exact said_checkChannel (h.append _) n.channel
  · exact said_eachEntry _ fun k m => said_checkModulation ((h.append _).append _) m

omit [Scalar α] in
theorem said_checkSynth (s : Score α) (h : Opens a path) (p : Part α) :
    Said (Opens a) (s.checkSynth path p) := by
  unfold Score.checkSynth
  split
  · exact (said_error _).mpr (h.append _)
  · exact (said_warning _).mpr (h.append _)
  · exact said_findIf_warning (h.append_three _ _ _) _
  · exact said_findIf_warning (h.append_three _ _ _) _

omit [Scalar α] in
theorem said_checkEffect (s : Score α) (h : Opens a path) (e : EffectRef α) :
    Said (Opens a) (s.checkEffect path e) := by
  cases e with
  | node id => exact said_findIf_warning (h.append_three _ _ _) _
  | inline device => exact said_findIf_warning (h.append_three _ _ _) _

theorem said_checkPart (s : Score α) (i : Nat) (p : Part α) :
    Said (Opens (entryPath "sequences" i)) (s.checkPart i p) := by
  have h := opens_self (entryPath "sequences" i)
  simp only [Score.checkPart, said_append]
  refine ⟨⟨⟨⟨said_checkSynth s h p, ?_⟩, ?_⟩, ?_⟩, ?_⟩
  · exact said_eachEntry _ fun j e => said_checkEffect s ((h.append _).append _) e
  · exact said_checkChannel (h.append _) p.midiChannel
  · split
    · exact (said_warning _).mpr (h.append _)
    · exact said_nil
  · split
    · exact (said_error _).mpr (h.append _)
    · exact said_eachEntry _ fun j n => said_checkNote ((h.append _).append _) n

end Paths

theorem opens_entryPath (list : String) (i : Nat) : Opens list (entryPath list i) :=
  (opens_self list).append_three _ _ _

theorem opens_partFailure (i : Nat) (item : Json α) (e : DecodeError) :
    Opens (entryPath "sequences" i) (partFailure i item e) := by
  have hpath : "sequences[" ++ toString i ++ "]" = entryPath "sequences" i := rfl
  unfold partFailure
  dsimp only
  rw [hpath]
  have h := opens_self (entryPath "sequences" i)
  split
  · exact (h.append_three _ _ _).append _
  · exact (h.append _).append _

theorem eq_of_opens_entryPath {i k : Nat} {message : String}
    (hi : Opens (entryPath "sequences" i) message) (hk : Opens (entryPath "sequences" k) message) :
    i = k := by
  have hrest {n : Nat} (h : Opens (entryPath "sequences" n) message) :
      ∃ rest, entryPath "sequences" n ++ rest = message := by
    obtain ⟨rest, hrest⟩ := h
    exact ⟨String.ofList rest, by simp [← String.toList_inj, hrest]⟩
  obtain ⟨x, hx⟩ := hrest hi
  obtain ⟨y, hy⟩ := hrest hk
  exact (entryPath_append_inj (by decide) (by decide) (hx.trans hy.symm)).2.1

/-! ## Messages on other places -/

def Elsewhere (message : String) : Prop := ¬ Opens "sequences" message

instance (message : String) : Decidable (Elsewhere message) := inferInstanceAs (Decidable (¬ _))

theorem elsewhere_of_opens {a message : String} (ha : ¬ Opens "sequences" a ∧ ¬ Opens a "sequences")
    (h : Opens a message) : Elsewhere message := fun hs => ne_of_openings hs h ha rfl

theorem said_checkTempo (s : Score α) : Said Elsewhere s.checkTempo := by
  have h := opens_self "bpm: "
  unfold Score.checkTempo
  split
  · exact (said_error _).mpr (by decide)
  · split
    · exact (said_error _).mpr (elsewhere_of_opens (by decide)
        ((opens_self "bpm: must be a positive number, got ").append _))
    · exact said_findIf_warning (elsewhere_of_opens (by decide) ((h.append _).append _)) _

theorem said_checkTempoPoint (i : Nat) (p : TempoPoint α) :
    Said Elsewhere (findIf (!Scalar.isPositive p.bpm) (.warning (entryPath "tempoMap" i ++ ": bpm "
      ++ Scalar.plainText p.bpm ++ " is not positive and will be ignored"))) :=
  said_findIf_warning (elsewhere_of_opens (by decide)
    ((opens_entryPath "tempoMap" i).append_three _ _ _)) _

omit [Scalar α] in
theorem said_checkNode (s : Score α) (i : Nat) (n : GraphNode α) :
    Said Elsewhere (s.checkNode i n) := by
  have h := opens_entryPath "audioGraph" i
  simp only [Score.checkNode, said_append]
  constructor
  · exact said_findIf_error (elsewhere_of_opens (by decide) (h.append_three _ _ _)) _
  · exact said_findIf_warning (elsewhere_of_opens (by decide) (h.append_three _ _ _)) _

omit [Scalar α] in
theorem said_checkConnection (s : Score α) (i : Nat) (c : Connection) :
    Said Elsewhere (s.checkConnection i c) := by
  have h := opens_entryPath "connections" i
  unfold Score.checkConnection
  dsimp only
  split
  · exact (said_error _).mpr (elsewhere_of_opens (by decide) ((h.append _).append _))
  · exact said_flatMap fun id _ => said_findIf_warning
      (elsewhere_of_opens (by decide) (h.append_three _ _ _)) _

theorem found_on_part {s : Score α} {f : Finding} (hf : f ∈ s.findings)
    (hopens : Opens "sequences" f.message) : f.message ∈ s.rejected ∨
      ∃ k p, s.partList[k]? = some p ∧ f ∈ s.checkPart k p := by
  have helse {findings : List Finding} (h : Said Elsewhere findings) : f ∉ findings :=
    fun hmem => h f hmem hopens
  simp only [Score.findings, Score.checkHeader, List.mem_append] at hf
  rcases hf with (((((((hf | hf) | hf) | hf) | hf) | hf) | hf) | hf)
  · obtain ⟨m, hm, rfl⟩ := List.mem_map.mp hf
    exact .inl hm
  · exact absurd hf (helse (said_findIf_error (by decide) _))
  · exact absurd hf (helse (said_findIf_error (by decide) _))
  · exact absurd hf (helse (said_checkTempo s))
  · exact absurd hf (helse (said_eachEntry _ said_checkTempoPoint))
  · exact absurd hf (helse (said_eachEntry _ (said_checkNode s)))
  · exact absurd hf (helse (said_eachEntry _ (said_checkConnection s)))
  · split at hf
    · exact absurd hf (helse ((said_error _).mpr (by decide)))
    · next parts hparts =>
      obtain ⟨k, p, hp, hf⟩ := mem_eachEntry.mp hf
      exact .inr ⟨k, p, by rwa [Score.partList, hparts], hf⟩

theorem Score.mem_findings_of_rejected (s : Score α) {message : String}
    (h : message ∈ s.rejected) : Finding.error message ∈ s.findings := by
  simp [Score.findings, Score.checkHeader, h]

theorem Score.mem_findings_of_part (s : Score α) {parts : List (Part α)}
    (hparts : s.parts = some parts) {k : Nat} {p : Part α} (hp : parts[k]? = some p) {f : Finding}
    (hf : f ∈ s.checkPart k p) : f ∈ s.findings := by
  rw [Score.findings, hparts]
  exact List.mem_append_right _ (mem_eachEntry.mpr ⟨k, p, hp, hf⟩)

theorem mem_fieldNames_of_error {name : String} {j : Json α} {e : DecodeError}
    (h : (Score.read (.obj [(name, j)]) : Except DecodeError (Score α)) = .error e) :
    name ∈ Score.fieldNames := by
  rw [Score.read_single] at h
  revert h
  unfold Score.readField
  dsimp only
  split
  case h_15 => exact nofun
  all_goals exact fun _ => by decide

theorem elsewhere_field {name message : String} {j : Json α} {e : DecodeError}
    (hname : name ≠ "sequences")
    (h : (Score.read (.obj [(name, j)]) : Except DecodeError (Score α)) = .error e)
    (hmessage : Opens name message) : Elsewhere message := by
  have hnames : ∀ name ∈ Score.fieldNames, name ≠ "sequences" →
      ¬ Opens "sequences" name ∧ ¬ Opens name "sequences" := by decide
  exact elsewhere_of_opens (hnames name (mem_fieldNames_of_error h) hname) hmessage

/-! ## Numbers -/

def readBefore (items : List (Json α)) (i : Nat) : Nat :=
  (items.take i).countP fun item => (Part.read item : Except DecodeError (Part α)).isOk

/-- What a report says of the `i`-th entry of the list that the parts of a score are read from, and
the number that it gives the entry: an unreadable one keeps its own. -/
inductive Says (s : Score α) (items : List (Json α)) (i : Nat) : Nat → String → Prop where
  | unread {item : Json α} {e : DecodeError} : items[i]? = some item →
    (Part.read item : Except DecodeError (Part α)) = .error e →
    Says s items i i (partFailure i item e)
  | found {item : Json α} {p : Part α} {f : Finding} : items[i]? = some item →
    Part.read item = .ok p → f ∈ s.checkPart (readBefore items i) p →
    Says s items i (readBefore items i) f.message

/-- The numbers that a report gives to the entries are their own. -/
def KeepsNumbers (s : Score α) (items : List (Json α)) : Prop :=
  ∀ i k message, Says s items i k message → k = i

theorem Says.opens {s : Score α} {items : List (Json α)} {i k : Nat} {message : String}
    (h : Says s items i k message) : Opens (entryPath "sequences" k) message := by
  cases h with
  | unread _ _ => exact opens_partFailure i _ _
  | found _ _ hf => exact said_checkPart s _ _ _ hf

theorem readBefore_eq_iff {items : List (Json α)} {i : Nat} (hi : i < items.length) :
    readBefore items i = i ↔ ∀ item ∈ items.take i,
      (Part.read item : Except DecodeError (Part α)).isOk = true := by
  have hlength : (items.take i).length = i := by
    rw [List.length_take]
    omega
  rw [readBefore, ← List.countP_eq_length, hlength]

theorem getElem?_readParts_iff {items : List (Json α)} {k : Nat} {p : Part α} :
    (items.filterMap fun item => (Part.read item).toOption)[k]? = some p ↔
      ∃ i item, items[i]? = some item ∧ Part.read item = .ok p ∧ readBefore items i = k := by
  have hok : (fun item : Json α => (Part.read item : Except DecodeError (Part α)).toOption.isSome) =
      fun item => (Part.read item : Except DecodeError (Part α)).isOk := by
    funext item
    cases (Part.read item : Except DecodeError (Part α)) <;> rfl
  rw [getElem?_filterMap_iff, hok]
  refine exists_congr fun i => exists_congr fun item => and_congr_right fun _ => ?_
  refine and_congr_left fun _ => ⟨toOption_eq_some, fun h => ?_⟩
  rw [h]
  rfl

theorem keepsNumbers_iff (s : Score α) (items : List (Json α)) : KeepsNumbers s items ↔
    ∀ i item p, items[i]? = some item → Part.read item = .ok p →
      s.checkPart (readBefore items i) p ≠ [] →
      ∀ earlier ∈ items.take i, (Part.read earlier : Except DecodeError (Part α)).isOk = true := by
  constructor
  · intro h i item p hitem hread hfound
    obtain ⟨f, hf⟩ := List.exists_mem_of_ne_nil _ hfound
    have hi := (List.getElem?_eq_some_iff.mp hitem).1
    exact (readBefore_eq_iff hi).mp (h i _ _ (.found hitem hread hf))
  · intro h i k message hsays
    cases hsays with
    | unread _ _ => rfl
    | found hitem hread hf =>
      have hi := (List.getElem?_eq_some_iff.mp hitem).1
      exact (readBefore_eq_iff hi).mpr (h i _ _ hitem hread (List.ne_nil_of_mem hf))

/-! ## Reports on documents -/

/-- What the report on a salvaged score says under a number is what it says of an entry. -/
theorem mem_messages_salvage_iff {fields : List (String × Json α)}
    (hn : (fields.map Prod.fst).Nodup) {items : List (Json α)}
    (hitems : ("sequences", .arr items) ∈ fields) (k : Nat) (message : String) :
    let s : Score α := salvage (.obj fields)
    message ∈ s.check.messages ∧ Opens (entryPath "sequences" k) message ↔
      ∃ i, Says s items i k message := by
  intro s
  have hsalvaged : Salvaged fields s := salvaged fields hn
  obtain ⟨reports, hrejected, -, hfaults⟩ := hsalvaged.reports
  have hparts := hsalvaged.parts items hitems
  have hitem {j : Json α} (hj : ("sequences", j) ∈ fields) : j = .arr items :=
    Option.some.inj ((lookup_of_mem hn hj).symm.trans (lookup_of_mem hn hitems))
  constructor
  · rintro ⟨hmessage, hopens⟩
    obtain ⟨f, hf, rfl⟩ := mem_messages_ofFindings.mp hmessage
    have hlist : Opens "sequences" f.message := (opens_entryPath "sequences" k).trans hopens
    rcases found_on_part hf hlist with hread | ⟨k', p, hp, hf⟩
    · rw [hrejected] at hread
      obtain ⟨⟨place, message⟩, hreport, hmessage⟩ := List.mem_map.mp hread
      have hmessage : message = f.message := hmessage
      rw [← hmessage] at hlist hopens ⊢
      cases (hfaults _ _).mp hreport with
      | @field name _ _ hfield hnot herror =>
        have hname : name ≠ "sequences" := by
          rintro rfl
          exact hnot ⟨items, by rw [hitem hfield]⟩
        exact absurd hlist
          (elsewhere_field hname herror (((opens_self name).append _).append _))
      | part hfield hentry herror =>
        cases hitem hfield
        obtain rfl := eq_of_opens_entryPath (opens_partFailure _ _ _) hopens
        exact ⟨_, .unread hentry herror⟩
    · rw [Score.partList, hparts] at hp
      obtain ⟨i, item, hentry, hread, rfl⟩ := getElem?_readParts_iff.mp hp
      obtain rfl := eq_of_opens_entryPath (said_checkPart s _ p f hf) hopens
      exact ⟨i, .found hentry hread hf⟩
  · rintro ⟨i, hsays⟩
    refine ⟨mem_messages_ofFindings.mpr ?_, hsays.opens⟩
    cases hsays with
    | unread hentry herror =>
      have hreport := (hfaults _ _).mpr (.part hitems hentry herror)
      have hmem := hrejected ▸ List.mem_map_of_mem (f := Prod.snd) hreport
      exact ⟨.error _, s.mem_findings_of_rejected hmem, rfl⟩
    | found hentry hread hf =>
      have hp := getElem?_readParts_iff.mpr ⟨i, _, hentry, hread, rfl⟩
      exact ⟨_, s.mem_findings_of_part hparts hp hf, rfl⟩

/-- A document is read as the salvage of its fields, once the notes of its parts are settled. -/
theorem normalize_eq_salvage {fields : List (String × Json α)} (hn : (fields.map Prod.fst).Nodup)
    (hd : isDocument (.obj fields) = true) {items : List (Json α)}
    (hitems : ("sequences", .arr items) ∈ fields) : ∃ settled,
    (settled.map Prod.fst).Nodup ∧
    ("sequences", .arr (items.map (mapListAt "notes" settleNote))) ∈ settled ∧
    (normalize (.obj fields) : Score α) = salvage (.obj settled) := by
  have hsettled : settlePitches (.obj fields) = .obj (Json.put "sequences"
      (.arr (items.map (mapListAt "notes" settleNote))) fields) := by
    rw [settlePitches, mapListAt, lookup_of_mem hn hitems]
  refine ⟨_, ?_, mem_of_lookup (lookup_put_self _ _ fields), ?_⟩
  · rwa [keys_put, if_pos (List.mem_map.mpr ⟨_, hitems, rfl⟩)]
  · rw [normalize_of_isDocument hd, readDocument_eq_salvage hsettled]

/-- The report on a document says something of each part that cannot be read and of each part at
fault, and nothing else opens with the path of a part. But the number in the path is the part's own
exactly if no part at fault comes after one that cannot be read. -/
theorem keepsNumbers_normalize_iff {fields : List (String × Json α)}
    (hn : (fields.map Prod.fst).Nodup) (hd : isDocument (.obj fields) = true)
    {items : List (Json α)} (hitems : ("sequences", .arr items) ∈ fields) :
    let s : Score α := normalize (.obj fields)
    let settled := items.map (mapListAt "notes" settleNote)
    (∀ k message, message ∈ s.check.messages ∧ Opens (entryPath "sequences" k) message ↔
      ∃ i, Says s settled i k message) ∧
    (KeepsNumbers s settled ↔ ∀ i item p, settled[i]? = some item → Part.read item = .ok p →
      s.checkPart (readBefore settled i) p ≠ [] → ∀ earlier ∈ settled.take i,
        (Part.read earlier : Except DecodeError (Part α)).isOk = true) := by
  intro s settled
  obtain ⟨_, hkeys, hparts, hs⟩ := normalize_eq_salvage hn hd hitems
  refine ⟨fun k message => ?_, keepsNumbers_iff s settled⟩
  have hreport := mem_messages_salvage_iff hkeys hparts k message
  rwa [← hs] at hreport

/-- The first part cannot be read and the second has no instrument, and the report gives both of
them the number of the first. -/
theorem keepsNumbers_normalize_iff_damaged :
    let lead : Json Float := .obj [("label", .str "lead"), ("notes", .arr [])]
    let fields : List (String × Json Float) :=
      [("formatId", .str formatName), ("version", .str "1.0"), ("bpm", .int 120),
        ("sequences", .arr [.null, lead])]
    (fields.map Prod.fst).Nodup ∧ isDocument (.obj fields) = true ∧
      ("sequences", .arr [.null, lead]) ∈ fields ∧
      (normalize (.obj fields)).check.errors =
        ["sequences[0]: invalid type: null, expected struct Sequence",
          "sequences[0]: missing synth or synthRef"] ∧
      ¬ KeepsNumbers (normalize (.obj fields)) [.null, lead] := by
  intro lead fields
  have hn : (fields.map Prod.fst).Nodup := by decide
  have hd : isDocument (.obj fields) = true := by decide
  have hitems : ("sequences", .arr [.null, lead]) ∈ fields := by simp [fields]
  refine ⟨hn, hd, hitems, by decide +kernel, fun hkeeps => ?_⟩
  have hread : Part.read lead = .ok (Part.labelled "lead" (some [])) := rfl
  have hearlier := (keepsNumbers_normalize_iff hn hd hitems).2.mp hkeeps 1 lead _ rfl hread
    (by decide +kernel) .null List.mem_cons_self
  cases hearlier

end Partitura
