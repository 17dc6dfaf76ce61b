import Partitura.Number.Binary64
import Partitura.Proofs.Controllers.Entered
import Partitura.Proofs.Settings.Loaded

/-!
# Layers of settings

Settings come from the usual ones, from the tables of files, and from variables, each layer over
those before it. A setting of a table is found under its heading and its key. The section under a
heading may also be a list, which has the settings at places of their own; such a list, like
anything that is no table, takes the place of all that earlier files have under the heading.
-/

namespace Partitura.Settings

open Json (ReadAs Sets bind_ok bind_error_iff mapM_ok)
open Toml (Ordered inForce? merged)

variable {α : Type}

/-! ## Records in tables -/

section Records

def member? (key : String) (place : Nat) : Toml α → Option (Toml α)
  | .table entries => Sorted.get? key entries
  | .array items => items[place]?
  | _ => none

theorem member?_toJson (key : String) (place : Nat) (v : Toml α) :
    v.toJson.member? key place = (member? key place v).map Toml.toJson := by
  cases v with
  | table entries =>
    rw [Toml.toJson, Json.member?, member?, Toml.get?_entriesToJson]
  | array items => rw [Toml.toJson, Json.member?, member?, Toml.itemsToJson_eq_map, List.getElem?_map]
  | _ => rfl

def Keyed (j : Json α) : Prop := ∀ fields, j = .obj fields → Sorted.Distinct fields

theorem keyed_toJson {v : Toml α} (h : Ordered v) : Keyed v.toJson := by
  intro fields hfields
  cases v with
  | table entries =>
    rw [Toml.toJson] at hfields
    cases hfields
    exact Toml.distinct_entriesToJson h.ascending
  | _ => rw [Toml.toJson] at hfields; cases hfields

end Records

/-! ## Settings that tables give -/

/-- Where a setting is: under a key below a heading, or at a place of a list. -/
structure Place where
  heading : String
  key : String
  index : Nat

/-- What the last table says that sets a setting or stands in its way. -/
def Place.given? (p : Place) (tables : List (Sorted (Toml α))) : Option (Toml α) :=
  match inForce? [p.heading] tables with
  | some (.array items) => items[p.index]?
  | _ => inForce? [p.heading, p.key] tables

def Given {β : Type} (tables : List (Sorted (Toml α))) (p : Place)
    (read : Json α → Except DecodeError β) (usual v : β) : Prop :=
  ReadAs read usual ((p.given? tables).map Toml.toJson) v

section Given

variable {β γ : Type} {tables : List (Sorted (Toml α))}

theorem sameOrTables_given? (h : ∀ t ∈ tables, Ordered (.table t)) (p : Place) :
    Toml.SameOrTables (((Toml.table (merged tables)).at? [p.heading]).bind (member? p.key p.index))
      (p.given? tables) := by
  have hheading := Toml.at?_merged h p.heading []
  have hkey := Toml.at?_merged h p.heading [p.key]
  rw [Toml.at?_table_cons] at hkey
  unfold Place.given?
  split
  · next items hitems =>
    rcases hheading with heq | ⟨mine, theirs, -, htheirs⟩
    · rw [heq, hitems]
      exact .inl rfl
    · rw [hitems] at htheirs
      cases htheirs
  · next hitems =>
    -- what is no list has the setting under its key
    suffices hmember : ∀ v, (Toml.table (merged tables)).at? [p.heading] = some v →
        member? p.key p.index v = v.at? [p.key] by
      rwa [Option.bind_congr hmember]
    intro v hv
    cases v with
    | table entries => exact (Toml.at?_singleton entries p.key).symm
    | array items =>
      rcases hheading with heq | ⟨mine, theirs, hmine, -⟩
      · exact absurd (heq.symm.trans hv) (hitems items)
      · cases hmine.symm.trans hv
    | _ => rfl

theorem given_of_section (part : γ → β) (usual : γ) (h : ∀ t ∈ tables, Ordered (.table t))
    {p : Place} {readSection : Json α → Except DecodeError γ} {read : Json α → Except DecodeError β}
    {sec : γ}
    (hsection : ReadAs readSection usual
      (((Toml.table (merged tables)).at? [p.heading]).map Toml.toJson) sec)
    (hpart : ∀ j r, Keyed j → readSection j = .ok r →
      ReadAs read (part usual) (j.member? p.key p.index) (part r))
    (hrefuses : ∀ fields v, read (.obj fields) ≠ .ok v) :
    Given tables p read (part usual) (part sec) := by
  have hmember : ReadAs read (part usual)
      ((((Toml.table (merged tables)).at? [p.heading]).bind (member? p.key p.index)).map Toml.toJson)
      (part sec) := by
    cases hat : (Toml.table (merged tables)).at? [p.heading] with
    | none =>
      rw [hat] at hsection
      exact congrArg part hsection
    | some v =>
      rw [hat] at hsection
      rw [Option.bind_some, ← member?_toJson]
      exact hpart _ _ (keyed_toJson ((Toml.ordered_merged h).at? hat)) hsection
  rcases sameOrTables_given? h p with heq | ⟨mine, theirs, hmine, -⟩
  · rwa [Given, ← heq]
  · rw [hmine, Option.map_some, Toml.toJson] at hmember
    exact absurd hmember (hrefuses _ _)

end Given

/-! ## Sections -/

section Sections

variable [Scalar α] {j : Json α}

theorem readAs_log (hj : Keyed j) {s : LogSection} (h : LogSection.read j = .ok s) :
    ReadAs Json.asString "warn" (j.member? "level" 0) s.level := by
  refine Sets.asRecord LogSection.level ?_ (by decide) (by rfl) hj h
  intro d n j d' h
  dsimp only at h
  split at h <;> first | (obtain ⟨v, hv, h⟩ := bind_ok h; cases h; simp [hv]) | (cases h; simp_all)

theorem readAs_midi (hj : Keyed j) {s : MidiSection} (h : MidiSection.read j = .ok s) :
    ReadAs Json.asNat16 480 (j.member? "ticks_per_beat" 0) s.ticksPerBeat ∧
      ReadAs Json.asByte 60 (j.member? "default_pitch" 1) s.defaultPitch := by
  refine ⟨Sets.asRecord MidiSection.ticksPerBeat ?_ (by decide) (by rfl) hj h,
    Sets.asRecord MidiSection.defaultPitch ?_ (by decide) (by rfl) hj h⟩
  all_goals
    intro d n j d' h
    dsimp only at h
    split at h <;> first | (obtain ⟨v, hv, h⟩ := bind_ok h; cases h; simp [hv]) | (cases h; simp_all)

theorem readAs_tune (hj : Keyed j) {s : TuneSection} (h : TuneSection.read j = .ok s) :
    ReadAs Json.asNat32 1 (j.member? "reference" 0) s.reference ∧
      ReadAs Json.asNat64 4 (j.member? "bars_per_line" 1) s.barsPerLine ∧
      ReadAs Json.asString "tessitura" (j.member? "source" 2) s.source := by
  refine ⟨Sets.asRecord TuneSection.reference ?_ (by decide) (by rfl) hj h,
    Sets.asRecord TuneSection.barsPerLine ?_ (by decide) (by rfl) hj h,
    Sets.asRecord TuneSection.source ?_ (by decide) (by rfl) hj h⟩
  all_goals
    intro d n j d' h
    dsimp only at h
    split at h <;> first | (obtain ⟨v, hv, h⟩ := bind_ok h; cases h; simp [hv]) | (cases h; simp_all)

theorem readAs_script (hj : Keyed j) {s : ScriptSection α} (h : ScriptSection.read j = .ok s) :
    ReadAs Json.asString "s" (j.member? "server" 0) s.server ∧
      ReadAs (Json.asOption Json.asScalar) none (j.member? "default_quant" 1) s.grid := by
  refine ⟨Sets.asRecord ScriptSection.server ?_ (by decide) (by rfl) hj h,
    Sets.asRecord ScriptSection.grid ?_ (by decide) (by rfl) hj h⟩
  all_goals
    intro d n j d' h
    dsimp only at h
    split at h <;> first | (obtain ⟨v, hv, h⟩ := bind_ok h; cases h; simp [hv]) | (cases h; simp_all)

theorem readAs_sections (hj : Keyed j) {s : Settings α} (h : read j = .ok s) :
    ReadAs LogSection.read .standard (j.member? "logging" 0) s.log ∧
      ReadAs MidiSection.read .standard (j.member? "midi" 1) s.midi ∧
      ReadAs TuneSection.read .standard (j.member? "notation" 2) s.tune ∧
      ReadAs ScriptSection.read .standard (j.member? "script" 3) s.script ∧
      ReadAs ControllerMap.read .standard (j.member? "controllers" 4) s.controllers := by
  refine ⟨Sets.asRecord Settings.log ?_ (by decide) (by rfl) hj h,
    Sets.asRecord Settings.midi ?_ (by decide) (by rfl) hj h,
    Sets.asRecord Settings.tune ?_ (by decide) (by rfl) hj h,
    Sets.asRecord Settings.script ?_ (by decide) (by rfl) hj h,
    Sets.asRecord Settings.controllers ?_ (by decide) (by rfl) hj h⟩
  all_goals
    intro d n j d' h
    dsimp only at h
    split at h <;> first | (obtain ⟨v, hv, h⟩ := bind_ok h; cases h; simp [hv]) | (cases h; simp_all)

end Sections

/-! ## Variables -/

def ticks? (v : String) : Option Nat := (Number.nat16? v).filter fun n => 1 ≤ n ∧ n ≤ 32767

def pitch? (v : String) : Option Nat := (Number.byte? v).filter (· ≤ 127)

def applied (environment : String → Option String) : List String :=
  [("TESSITURA_LOG_LEVEL", (environment "TESSITURA_LOG_LEVEL").isSome),
    ("RUST_LOG", (environment "RUST_LOG").isSome),
    ("TESSITURA_TICKS_PER_BEAT", ((environment "TESSITURA_TICKS_PER_BEAT").bind ticks?).isSome),
    ("TESSITURA_DEFAULT_PITCH", ((environment "TESSITURA_DEFAULT_PITCH").bind pitch?).isSome),
    ("TESSITURA_BARS_PER_LINE", ((environment "TESSITURA_BARS_PER_LINE").bind Number.nat64?).isSome),
    ("TESSITURA_SC_SERVER", (environment "TESSITURA_SC_SERVER").isSome)].filterMap
      fun (name, fits) => if fits then some name else none

theorem applyOverride_eq {β : Type} (o : Override α) (read : String → Option β)
    (put : β → Settings α → Settings α) (part : Settings α → β)
    (happly : ∀ v s, o.apply v s = (read v).map (put · s)) (hput : ∀ s, put (part s) s = s)
    (environment : String → Option String) (s : Settings α) (names : List String) :
    applyOverride environment (s, names) o =
      (put (((environment o.name).bind read).getD (part s)) s,
        names ++ if ((environment o.name).bind read).isSome then [o.name] else []) := by
  have hmap : ((environment o.name).bind fun v => o.apply v s) =
      ((environment o.name).bind read).map (put · s) := by
    simp only [happly]
    exact Option.map_bind.symm
  rw [applyOverride, hmap]
  cases (environment o.name).bind read with
  | none => simp [hput]
  | some v => rfl

theorem bind_ite_eq_map_filter {β γ : Type} {p : β → Prop} [DecidablePred p] {q : β → Bool}
    (h : ∀ x, q x = true ↔ p x) (o : Option β) (f : β → γ) :
    (o.bind fun x => if p x then some (f x) else none) = (o.filter q).map f := by
  cases o with
  | none => rfl
  | some x => by_cases hx : p x <;> simp [Option.filter, h, hx]

theorem foldl_step {environment : String → Option String} {o : Override α} {os : List (Override α)}
    {state next last : Settings α × List String} (ho : applyOverride environment state o = next)
    (hos : os.foldl (applyOverride environment) next = last) :
    (o :: os).foldl (applyOverride environment) state = last := by
  rw [List.foldl_cons, ho, hos]

theorem filterMap_fits (name : String) (fits : Bool) (rest : List (String × Bool)) :
    ((name, fits) :: rest).filterMap (fun (name, fits) => if fits then some name else none) =
      (if fits then [name] else []) ++
        rest.filterMap (fun (name, fits) => if fits then some name else none) := by
  cases fits <;> rfl

theorem override_eq (environment : String → Option String) (s : Settings α) :
    s.override environment =
      ({ s with
          log := ⟨((environment "RUST_LOG").or (environment "TESSITURA_LOG_LEVEL")).getD s.log.level⟩
          midi :=
            ⟨((environment "TESSITURA_TICKS_PER_BEAT").bind ticks?).getD s.midi.ticksPerBeat,
              ((environment "TESSITURA_DEFAULT_PITCH").bind pitch?).getD s.midi.defaultPitch⟩
          tune := { s.tune with
            barsPerLine :=
              ((environment "TESSITURA_BARS_PER_LINE").bind Number.nat64?).getD s.tune.barsPerLine }
          script := { s.script with
            server := (environment "TESSITURA_SC_SERVER").getD s.script.server } },
        applied environment) := by
  have hlog (name : String) :=
    applyOverride_eq (α := α) ⟨name, fun v s => some { s with log := ⟨v⟩ }⟩ some
      (fun v s => { s with log := ⟨v⟩ }) (fun s => s.log.level) (fun _ _ => rfl) (fun _ => rfl)
      environment
  have hticks :=
    applyOverride_eq (α := α) ⟨"TESSITURA_TICKS_PER_BEAT", _⟩ ticks?
      (fun n s => { s with midi := { s.midi with ticksPerBeat := n } })
      (fun s => s.midi.ticksPerBeat)
      (fun v _ => bind_ite_eq_map_filter (p := fun n => isTickCount n = true) (fun _ => Iff.rfl)
        (Number.nat16? v) _) (fun _ => rfl) environment
  have hpitch :=
    applyOverride_eq (α := α) ⟨"TESSITURA_DEFAULT_PITCH", _⟩ pitch?
      (fun n s => { s with midi := { s.midi with defaultPitch := n } })
      (fun s => s.midi.defaultPitch)
      (fun v _ => bind_ite_eq_map_filter (p := fun n => n ≤ 127) (fun _ => decide_eq_true_iff)
        (Number.byte? v) _) (fun _ => rfl) environment
  have hbars :=
    applyOverride_eq (α := α) ⟨"TESSITURA_BARS_PER_LINE", _⟩ Number.nat64?
      (fun n s => { s with tune := { s.tune with barsPerLine := n } }) (fun s => s.tune.barsPerLine)
      (fun _ _ => Option.map_eq_bind.symm) (fun _ => rfl) environment
  have hserver :=
    applyOverride_eq (α := α)
      ⟨"TESSITURA_SC_SERVER", fun v s => some { s with script := { s.script with server := v } }⟩
      some (fun v s => { s with script := { s.script with server := v } })
      (fun s => s.script.server) (fun _ _ => rfl) (fun _ => rfl) environment
  -- one step for each variable, in their order
  refine (foldl_step (hlog _ s []) (foldl_step (hlog _ _ _) (foldl_step (hticks _ _)
    (foldl_step (hpitch _ _) (foldl_step (hbars _ _) (foldl_step (hserver _ _) rfl)))))).trans ?_
  simp only [Option.bind_fun_some, Option.getD_or, applied, List.foldl_nil, filterMap_fits,
    List.nil_append, List.append_assoc, List.filterMap_nil, List.append_nil]

/-! ## Tables that are loaded -/

section Loading

variable [Scalar α]

theorem foldlM_table (files : List SettingsFile) (base : Sorted (Toml α)) :
    files.foldlM (fun base f => do .ok (Toml.overlayTable base (← f.table))) base =
      (fun tables => tables.foldl Toml.overlayTable base) <$> files.mapM SettingsFile.table := by
  induction files generalizing base with
  | nil => rfl
  | cons f rest ih =>
    rw [List.foldlM_cons, List.mapM_cons]
    cases htable : (f.table : Except SettingsError (Sorted (Toml α))) with
    | error e => rfl
    | ok t =>
      refine (ih (Toml.overlayTable base t)).trans ?_
      cases hrest : (rest.mapM SettingsFile.table : Except SettingsError (List (Sorted (Toml α)))) <;>
        rfl

theorem mergedTable_eq (files : List SettingsFile) :
    (mergedTable files : Except SettingsError (Sorted (Toml α))) =
      merged <$> files.mapM SettingsFile.table :=
  foldlM_table files []

theorem ordered_table {f : SettingsFile} {t : Sorted (Toml α)} (h : f.table = .ok t) :
    Ordered (.table t) := by
  unfold SettingsFile.table at h
  split at h
  · cases h
  · split at h
    · cases h
    · next hparse =>
      split at h
      · cases h
      · cases h
        exact Toml.ordered_parse hparse

theorem table_ne_ticksOutOfRange (f : SettingsFile) (origin : String) (ticks : Nat) :
    (f.table : Except SettingsError (Sorted (Toml α))) ≠ .error (.ticksOutOfRange origin ticks) := by
  unfold SettingsFile.table
  repeat' split
  all_goals exact fun h => nomatch h

theorem mapM_table_ne_ticksOutOfRange (files : List SettingsFile) (origin : String) (ticks : Nat) :
    (files.mapM SettingsFile.table : Except SettingsError (List (Sorted (Toml α)))) ≠
      .error (.ticksOutOfRange origin ticks) := by
  induction files with
  | nil => exact fun h => nomatch h
  | cons f rest ih =>
    rw [List.mapM_cons]
    cases htable : (f.table : Except SettingsError (Sorted (Toml α))) with
    | error e =>
      rintro ⟨⟩
      exact table_ne_ticksOutOfRange f origin ticks htable
    | ok t =>
      cases hrest : (rest.mapM SettingsFile.table : Except SettingsError (List (Sorted (Toml α)))) with
      | error e =>
        rintro ⟨⟩
        exact ih hrest
      | ok ts => exact fun h => nomatch h

/-! ## Layers -/

/-- A setting is what a variable gives, else what tables give, else what is usual. -/
def FromLayers {β : Type} (tables : List (Sorted (Toml α))) (p : Place)
    (read : Json α → Except DecodeError β) (usual : β) (over? : Option β) (v : β) : Prop :=
  ∃ given, Given tables p read usual given ∧ v = over?.getD given

/-- Settings that come from tables and variables. -/
structure Layered (tables : List (Sorted (Toml α))) (environment : String → Option String)
    (s : Settings α) : Prop where
  level : FromLayers tables ⟨"logging", "level", 0⟩ Json.asString "warn"
    ((environment "RUST_LOG").or (environment "TESSITURA_LOG_LEVEL")) s.log.level
  ticksPerBeat : FromLayers tables ⟨"midi", "ticks_per_beat", 0⟩ Json.asNat16 480
    ((environment "TESSITURA_TICKS_PER_BEAT").bind ticks?) s.midi.ticksPerBeat
  defaultPitch : FromLayers tables ⟨"midi", "default_pitch", 1⟩ Json.asByte 60
    ((environment "TESSITURA_DEFAULT_PITCH").bind pitch?) s.midi.defaultPitch
  reference : FromLayers tables ⟨"notation", "reference", 0⟩ Json.asNat32 1 none s.tune.reference
  barsPerLine : FromLayers tables ⟨"notation", "bars_per_line", 1⟩ Json.asNat64 4
    ((environment "TESSITURA_BARS_PER_LINE").bind Number.nat64?) s.tune.barsPerLine
  source : FromLayers tables ⟨"notation", "source", 2⟩ Json.asString "tessitura" none s.tune.source
  server : FromLayers tables ⟨"script", "server", 0⟩ Json.asString "s"
    (environment "TESSITURA_SC_SERVER") s.script.server
  grid : FromLayers tables ⟨"script", "default_quant", 1⟩ (Json.asOption Json.asScalar) none none
    s.script.grid
  controllers : ∃ m : ControllerMap, m.Tidy ∧ m.Entered tables ∧
    s.controllers = ControllerMap.standard.merge m

theorem asString_obj (fields : List (String × Json α)) (v : String) :
    Json.asString (.obj fields) ≠ .ok v := fun h => nomatch h

theorem natural_obj {hi : Int} {kind : String} (fields : List (String × Json α)) (v : Nat) :
    Int.toNat <$> Json.asInteger 0 hi kind (.obj fields) ≠ .ok v := fun h => nomatch h

theorem asOption_asScalar_obj (fields : List (String × Json α)) (v : Option α) :
    Json.asOption Json.asScalar (.obj fields) ≠ .ok v := fun h => nomatch h

theorem standard_merge_empty :
    ControllerMap.standard.merge .empty = ControllerMap.standard := rfl

theorem controllers_of_tables {tables : List (Sorted (Toml α))}
    (h : ∀ t ∈ tables, Ordered (.table t)) {c : ControllerMap}
    (hc : ReadAs ControllerMap.read .standard
      (((Toml.table (merged tables)).at? ["controllers"]).map Toml.toJson) c) :
    ∃ m : ControllerMap, m.Tidy ∧ m.Entered tables ∧
      ControllerMap.standard.merge c = ControllerMap.standard.merge m := by
  cases hat : (Toml.table (merged tables)).at? ["controllers"] with
  | none =>
    rw [hat] at hc
    obtain rfl : c = ControllerMap.standard := hc
    refine ⟨.empty, ControllerMap.tidy_empty,
      ControllerMap.entered_of_holds h (hat ▸ ControllerMap.holds_none), ?_⟩
    have hagain := ControllerMap.merge_merge ControllerMap.tidy_standard ControllerMap.tidy_empty
    rw [standard_merge_empty] at hagain ⊢
    exact hagain
  | some v =>
    rw [hat] at hc
    have hread : ControllerMap.read v.toJson = .ok c := hc
    exact ⟨c, tidy_read hread, ControllerMap.entered_of_holds h
      (hat ▸ ControllerMap.holds_read ((Toml.ordered_merged h).at? hat) hread), rfl⟩

theorem layered_ofTable {tables : List (Sorted (Toml α))} (h : ∀ t ∈ tables, Ordered (.table t))
    {s : Settings α} (hs : ofTable (merged tables) = .ok s) :
    Layered tables (fun _ => none)
      { s with controllers := ControllerMap.standard.merge s.controllers } := by
  have hmerged : Ordered (.table (merged tables)) := Toml.ordered_merged h
  have hsections := readAs_sections (keyed_toJson hmerged) hs
  simp only [member?_toJson, member?, ← Toml.at?_singleton] at hsections
  obtain ⟨hlog, hmidi, htune, hscript, hcontrollers⟩ := hsections
  -- without variables a setting is what the tables give
  have hplain {β : Type} {p : Place} {read : Json α → Except DecodeError β} {usual v : β}
      (hv : Given tables p read usual v) : FromLayers tables p read usual none v := ⟨v, hv, rfl⟩
  exact {
    level := hplain (given_of_section LogSection.level .standard h hlog
      (fun _ _ hj hr => readAs_log hj hr) asString_obj)
    ticksPerBeat := hplain (given_of_section MidiSection.ticksPerBeat .standard h hmidi
      (fun _ _ hj hr => (readAs_midi hj hr).1) natural_obj)
    defaultPitch := hplain (given_of_section MidiSection.defaultPitch .standard h hmidi
      (fun _ _ hj hr => (readAs_midi hj hr).2) natural_obj)
    reference := hplain (given_of_section TuneSection.reference .standard h htune
      (fun _ _ hj hr => (readAs_tune hj hr).1) natural_obj)
    barsPerLine := hplain (given_of_section TuneSection.barsPerLine .standard h htune
      (fun _ _ hj hr => (readAs_tune hj hr).2.1) natural_obj)
    source := hplain (given_of_section TuneSection.source .standard h htune
      (fun _ _ hj hr => (readAs_tune hj hr).2.2) asString_obj)
    server := hplain (given_of_section ScriptSection.server .standard h hscript
      (fun _ _ hj hr => (readAs_script hj hr).1) asString_obj)
    grid := hplain (given_of_section ScriptSection.grid .standard h hscript
      (fun _ _ hj hr => (readAs_script hj hr).2) asOption_asScalar_obj)
    controllers := controllers_of_tables h hcontrollers }

omit [Scalar α] in
theorem FromLayers.over {β : Type} {tables : List (Sorted (Toml α))} {p : Place}
    {read : Json α → Except DecodeError β} {usual v : β}
    (h : FromLayers tables p read usual none v) (over? : Option β) :
    FromLayers tables p read usual over? (over?.getD v) := by
  obtain ⟨given, hgiven, hv⟩ := h
  exact ⟨given, hgiven, congrArg over?.getD hv⟩

theorem Layered.override {tables : List (Sorted (Toml α))} {s : Settings α}
    (h : Layered tables (fun _ => none) s) (environment : String → Option String) :
    Layered tables environment (s.override environment).1 := by
  rw [override_eq]
  exact {
    level := h.level.over _
    ticksPerBeat := h.ticksPerBeat.over _
    defaultPitch := h.defaultPitch.over _
    reference := h.reference
    barsPerLine := h.barsPerLine.over _
    source := h.source
    server := h.server.over _
    grid := h.grid
    controllers := h.controllers }

def lastName (files : List SettingsFile) : String :=
  (files.map SettingsFile.name).getLast?.getD "<defaults>"

theorem loadSettings_eq (files : List SettingsFile) (environment : String → Option String) :
    (loadSettings files environment : Except SettingsError (LoadedSettings α)) =
      (files.mapM SettingsFile.table).bind fun tables =>
        (settingsOfTable (lastName files) (merged tables)).bind fun s =>
          .ok ⟨(s.override environment).1, files.map SettingsFile.name, (s.override environment).2⟩ := by
  unfold loadSettings
  rw [mergedTable_eq]
  cases (files.mapM SettingsFile.table : Except SettingsError (List (Sorted (Toml α)))) <;> rfl

theorem settingsOfTable_ok {origin : String} {table : Sorted (Toml α)} {s : Settings α}
    (h : settingsOfTable origin table = .ok s) : ∃ read, ofTable table = .ok read ∧
      s = { read with controllers := ControllerMap.standard.merge read.controllers } := by
  unfold settingsOfTable at h
  split at h
  · cases h
  · next read hread =>
    split at h
    · cases h
      exact ⟨read, hread, rfl⟩
    · cases h

theorem settingsOfTable_ticksOutOfRange_iff {origin file : String} {table : Sorted (Toml α)}
    {ticks : Nat} : settingsOfTable origin table = .error (.ticksOutOfRange file ticks) ↔
      file = origin ∧ ∃ s : Settings α, ofTable table = .ok s ∧ s.midi.ticksPerBeat = ticks ∧
        ¬ (1 ≤ ticks ∧ ticks ≤ 32767) := by
  unfold settingsOfTable
  cases hread : ofTable table with
  | error e => simp
  | ok s =>
    have hcount : isTickCount s.midi.ticksPerBeat = true ↔
        1 ≤ s.midi.ticksPerBeat ∧ s.midi.ticksPerBeat ≤ 32767 := decide_eq_true_iff
    simp only [Except.ok.injEq, exists_eq_left']
    split
    · next hticks =>
      refine ⟨(fun h => nomatch h), ?_⟩
      rintro ⟨-, rfl, hout⟩
      exact absurd (hcount.mp hticks) hout
    · next hticks =>
      constructor
      · rintro ⟨⟩
        exact ⟨rfl, rfl, fun hin => hticks (hcount.mpr hin)⟩
      · rintro ⟨rfl, rfl, -⟩
        rfl

/-- Settings that are loaded come from the tables of files, laid over one another, and from the
variables that are set to values that fit. Loading finds a count of ticks out of range if and only
if every file can be read, and their table gives such a count. -/
theorem loadSettings_layered (files : List SettingsFile) (environment : String → Option String) :
    (∀ loaded : LoadedSettings α, loadSettings files environment = .ok loaded →
      ∃ tables, files.mapM SettingsFile.table = .ok tables ∧
        Layered tables environment loaded.settings ∧
        (1 ≤ loaded.settings.midi.ticksPerBeat ∧ loaded.settings.midi.ticksPerBeat ≤ 32767) ∧
        loaded.overridden = applied environment) ∧
    ∀ origin ticks,
      (loadSettings files environment : Except SettingsError (LoadedSettings α)) =
          .error (.ticksOutOfRange origin ticks) ↔
        origin = lastName files ∧
          ∃ (tables : List (Sorted (Toml α))) (s : Settings α),
            files.mapM SettingsFile.table = .ok tables ∧ ofTable (merged tables) = .ok s ∧
              s.midi.ticksPerBeat = ticks ∧ ¬ (1 ≤ ticks ∧ ticks ≤ 32767) := by
  refine ⟨fun loaded h => ?_, fun origin ticks => ?_⟩
  · have hrange : isTickCount loaded.settings.midi.ticksPerBeat = true := (settled_of_load h).ticks
    rw [loadSettings_eq] at h
    obtain ⟨tables, htables, h⟩ := bind_ok h
    obtain ⟨s, hs, h⟩ := bind_ok h
    cases h
    obtain ⟨found, hfound, rfl⟩ := settingsOfTable_ok hs
    have hordered : ∀ t ∈ tables, Ordered (.table t) := fun t ht => by
      obtain ⟨f, -, hf⟩ := mapM_ok htables t ht
      exact ordered_table hf
    refine ⟨tables, htables, (layered_ofTable hordered hfound).override environment,
      of_decide_eq_true hrange, ?_⟩
    rw [override_eq]
  · rw [loadSettings_eq, bind_error_iff,
      or_iff_right (mapM_table_ne_ticksOutOfRange files origin ticks)]
    simp only [bind_error_iff, reduceCtorEq, and_false, exists_false, or_false,
      settingsOfTable_ticksOutOfRange_iff]
    constructor
    · rintro ⟨tables, htables, horigin, s, hs⟩
      exact ⟨horigin, tables, s, htables, hs⟩
    · rintro ⟨horigin, tables, s, htables, hs⟩
      exact ⟨tables, htables, horigin, s, hs⟩

end Loading

/-! ## Files that are loaded -/

section Files

theorem exists_ok_of_any {ε β : Type} {x : Except ε β} {p : β → Bool}
    (h : x.toOption.any p = true) : ∃ b, x = .ok b ∧ p b = true := by
  cases x with
  | error e => cases h
  | ok b => exact ⟨b, rfl, h⟩

/-- Two files that set the pitch, the first one also the ticks, which a variable overrides. -/
theorem loadSettings_layered_twoFiles :
    let files : List SettingsFile :=
      [⟨"user", .ok "[midi]\nticks_per_beat = 96\ndefault_pitch = 48\n"⟩,
        ⟨"local", .ok "[midi]\ndefault_pitch = 50\n[controllers]\ncutoff = 20\n"⟩]
    let environment := fun v => if v = "TESSITURA_TICKS_PER_BEAT" then some "240" else none
    ∃ (tables : List (Sorted (Toml Float))) (loaded : LoadedSettings Float),
      loadSettings files environment = .ok loaded ∧ files.mapM SettingsFile.table = .ok tables ∧
        Layered tables environment loaded.settings ∧ loaded.settings.midi = ⟨240, 50⟩ ∧
        loaded.overridden = ["TESSITURA_TICKS_PER_BEAT"] := by
  intro files environment
  have hload : (loadSettings files environment :
      Except SettingsError (LoadedSettings Float)).toOption.any
        (fun loaded => decide (loaded.settings.midi = ⟨240, 50⟩ ∧
          loaded.overridden = ["TESSITURA_TICKS_PER_BEAT"])) = true := by decide +kernel
  obtain ⟨loaded, hload, hmidi⟩ := exists_ok_of_any hload
  obtain ⟨tables, htables, hlayered, -⟩ := (loadSettings_layered files environment).1 loaded hload
  exact ⟨tables, loaded, hload, htables, hlayered, of_decide_eq_true hmidi⟩

def isInteger {α : Type} (n : Int) : Option (Toml α) → Bool
  | some (.integer m) => m == n
  | _ => false

theorem eq_of_isInteger {α : Type} {n : Int} {v : Option (Toml α)} (h : isInteger n v = true) :
    v = some (.integer n) := by
  unfold isInteger at h
  split at h
  · rw [eq_of_beq h]
  · cases h

/-- The last table that has a pitch has 48, but the list in the place of its section, which a later
table has, leaves the pitch at what is usual. -/
theorem loadSettings_list :
    let files : List SettingsFile :=
      [⟨"user", .ok "[midi]\ndefault_pitch = 48\n"⟩, ⟨"local", .ok "midi = []\n"⟩]
    ∃ (tables : List (Sorted (Toml Float))) (loaded : LoadedSettings Float),
      files.mapM SettingsFile.table = .ok tables ∧
        loadSettings files (fun _ => none) = .ok loaded ∧
        tables.reverse.findSome? (fun t => (Toml.table t).at? ["midi", "default_pitch"]) =
          some (.integer 48) ∧
        loaded.settings.midi.defaultPitch = 60 := by
  intro files
  have htables : (files.mapM SettingsFile.table :
      Except SettingsError (List (Sorted (Toml Float)))).toOption.any (fun tables =>
        isInteger 48 (tables.reverse.findSome? fun t =>
          (Toml.table t).at? ["midi", "default_pitch"])) = true := by decide +kernel
  have hload : (loadSettings files (fun _ => none) :
      Except SettingsError (LoadedSettings Float)).toOption.any
        (fun loaded => loaded.settings.midi.defaultPitch == 60) = true := by decide +kernel
  obtain ⟨tables, htables, hpitch⟩ := exists_ok_of_any htables
  obtain ⟨loaded, hload, husual⟩ := exists_ok_of_any hload
  exact ⟨tables, loaded, htables, hload, eq_of_isInteger hpitch, eq_of_beq husual⟩

end Files

end Partitura.Settings
