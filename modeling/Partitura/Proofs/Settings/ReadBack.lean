import Partitura.Proofs.Settings.Loaded
import Partitura.Proofs.Toml.Lines
import Partitura.Proofs.Toml.Tables

/-!
# Settings read back from their text

The text of settings is put together line by line, and reading it takes the lines apart again, sorts
the tables that they make, and joins the controllers to the usual ones. Settings that have been
loaded come out of this as they were, with three exceptions: an environment may ask for more bars
than an integer of a document can count, a grid may be no number, and a key of several lines is
written in a form that only values may have. No such text can be read at all.
-/

namespace Partitura

open Toml
open Sorted (Ascending Distinct)

namespace Settings

/-! ## What the lines hold -/

def controllerReading? : String × ControllerEntry → Option (Option (Item Float))
  | (key, .controller n) => some (onLine key (pairOf key (whole n)))
  | (_, .table _) => none

def tableReadings : String × ControllerEntry → List (Option (Item Float))
  | (_, .controller _) => []
  | (key, .table entries) =>
    onLine key (some (.head ["controllers", key])) ::
      entries.map fun e => onLine e.1 (pairOf e.1 (whole e.2))

def readings (s : Settings Float) : List (Option (Item Float)) :=
  [some (.head ["logging"]), pairOf "level" (some (.string s.log.level)),
    some (.head ["midi"]), pairOf "ticks_per_beat" (whole s.midi.ticksPerBeat),
    pairOf "default_pitch" (whole s.midi.defaultPitch),
    some (.head ["notation"]), pairOf "reference" (whole s.tune.reference),
    pairOf "bars_per_line" (whole s.tune.barsPerLine),
    pairOf "source" (some (.string s.tune.source)),
    some (.head ["script"]), pairOf "server" (some (.string s.script.server))]
    ++ (s.script.grid.map fun x => pairOf "default_quant" (real x)).toList
    ++ [some (.head ["controllers"])]
    ++ s.controllers.entries.filterMap controllerReading?
    ++ s.controllers.entries.flatMap tableReadings

section Lines

variable {α : Type} [Scalar α]

theorem reading_headLine {key : String} (h : isBare key = true) {t : String}
    (ht : t = "[" ++ key ++ "]") : Toml.Reading t.toList (some (.head [key]) : Option (Item α)) := by
  have hread := reading_head (α := α) (onLine_of_isBare h)
  rw [keyText, if_pos h] at hread
  subst ht
  simpa using hread

theorem reading_entryLine (key : String) {value : String} {r : Option (Toml α)}
    (hvalue : ReadsValue value.toList r) :
    Toml.Reading (entryLine (keyText key) value).toList (onLine key (pairOf key r)) := by
  have hread : Toml.Reading ((keyText key).toList ++ (" = ".toList ++ value.toList))
      (onLine key (pairOf key r)) := reading_entry hvalue
  rwa [← String.toList_append, ← String.toList_append, ← String.append_assoc] at hread

theorem reading_bareLine {key : String} (h : isBare key = true) {value : String}
    {r : Option (Toml α)} (hvalue : ReadsValue value.toList r) :
    Toml.Reading (entryLine key value).toList (pairOf key r) := by
  have hread := reading_entryLine key hvalue
  rwa [keyText, if_pos h, onLine, if_pos (onLine_of_isBare h)] at hread

theorem isGap_empty : IsGap "".toList := .inl rfl

theorem isGap_title : IsGap "# tessitura configuration".toList :=
  .inr ⟨" tessitura configuration".toList, rfl, List.all_eq_true.mp (by decide)⟩

theorem holds_controllers (entries : List (String × ControllerEntry)) :
    Holds (entries.filterMap controllerLine?) (entries.filterMap controllerReading?) := by
  induction entries with
  | nil => exact .nil
  | cons e entries ih =>
    obtain ⟨key, e⟩ := e
    cases e with
    | controller n => exact .item (reading_entryLine key (readsValue_toString n)) ih
    | table table => exact ih

theorem holds_tableEntries (entries : List (String × Nat)) :
    Holds (entries.map fun e => entryLine (Toml.keyText e.1) (toString e.2))
      (entries.map fun e => (onLine e.1 (pairOf e.1 (whole e.2)) : Option (Item α))) := by
  induction entries with
  | nil => exact .nil
  | cons e entries ih => exact .item (reading_entryLine e.1 (readsValue_toString e.2)) ih

theorem holds_tables (entries : List (String × ControllerEntry)) :
    Holds (entries.flatMap controllerTable) (entries.flatMap tableReadings) := by
  induction entries with
  | nil => exact .nil
  | cons e entries ih =>
    obtain ⟨key, e⟩ := e
    cases e with
    | controller n => exact ih
    | table table =>
      have hhead := reading_innerHead (α := Float) (by decide : isBare "controllers" = true) key
      refine Holds.append (.gap isGap_empty (.item ?_ (holds_tableEntries table))) ih
      simpa using hhead

theorem holds_lines (s : Settings Float) : Holds s.lines s.readings := by
  have hgrid : Holds
      (s.script.grid.map fun x => entryLine "default_quant" (Scalar.settingText x)).toList
      (s.script.grid.map fun x => pairOf "default_quant" (real x)).toList := by
    cases s.script.grid with
    | none => exact .nil
    | some x => exact .item (reading_bareLine (by decide) (readsValue_settingText x)) .nil
  have hhead {key : String} {t : String} (h : isBare key = true) (ht : t = "[" ++ key ++ "]") :
      Toml.Reading t.toList (some (.head [key]) : Option (Item Float)) := reading_headLine h ht
  have hstring {key : String} (h : isBare key = true) (value : String) :
      Toml.Reading (entryLine key (Toml.quoted value)).toList
        (pairOf key (some (.string value : Toml Float))) :=
    reading_bareLine h (readsValue_quoted value)
  have hwhole {key : String} (h : isBare key = true) (n : Nat) :
      Toml.Reading (entryLine key (toString n)).toList (pairOf key (whole n : Option (Toml Float))) :=
    reading_bareLine h (readsValue_toString n)
  have hcontrollers : Holds ["", "[controllers]"] [some (.head ["controllers"] : Item Float)] :=
    .gap isGap_empty (.item (hhead (by decide) rfl) .nil)
  refine (((Holds.append ?_ hgrid).append hcontrollers).append (holds_controllers _)).append
    (holds_tables _)
  exact .gap isGap_title <| .gap isGap_empty <|
    .item (hhead (by decide) rfl) <| .item (hstring (by decide) _) <| .gap isGap_empty <|
    .item (hhead (by decide) rfl) <| .item (hwhole (by decide) _) <|
    .item (hwhole (by decide) _) <| .gap isGap_empty <|
    .item (hhead (by decide) rfl) <| .item (hwhole (by decide) _) <|
    .item (hwhole (by decide) _) <| .item (hstring (by decide) _) <| .gap isGap_empty <|
    .item (hhead (by decide) rfl) <| .item (hstring (by decide) _) .nil

end Lines

end Settings

/-! ## What the text means -/

def ControllerEntry.keys : ControllerEntry → List String
  | .controller _ => []
  | .table entries => entries.map Prod.fst

def ControllerMap.keys (m : ControllerMap) : List String :=
  m.entries.flatMap fun e => e.1 :: e.2.keys

namespace Settings

/-- Settings whose text can be read: a count of bars that 64 bits hold with a sign, a grid that is
a number, and no key that takes several lines. -/
structure Legible (s : Settings Float) : Prop where
  barsPerLine : s.tune.barsPerLine < 2 ^ 63
  grid : ∀ x ∈ s.script.grid, x.isNaN = false
  keys : ∀ key ∈ s.controllers.keys, OnLine key

def controllerPair? : String × ControllerEntry → Option (String × Toml Float)
  | (key, .controller n) => some (key, .integer n)
  | (_, .table _) => none

def tableHeading? : String × ControllerEntry → Option (Heading Float)
  | (_, .controller _) => none
  | (key, .table entries) => some (key, entries.map fun e => (e.1, .integer e.2))

def headings (s : Settings Float) : List (Heading Float) :=
  [("logging", [("level", .string s.log.level)]),
    ("midi", [("ticks_per_beat", .integer s.midi.ticksPerBeat),
      ("default_pitch", .integer s.midi.defaultPitch)]),
    ("notation", [("reference", .integer s.tune.reference),
      ("bars_per_line", .integer s.tune.barsPerLine), ("source", .string s.tune.source)]),
    ("script", ("server", .string s.script.server) ::
      (s.script.grid.map fun x => ("default_quant", .float x)).toList)]

def controllerHeading (s : Settings Float) : Heading Float :=
  ("controllers", s.controllers.entries.filterMap controllerPair?)

def items (s : Settings Float) : List (Item Float) :=
  (s.headings ++ [s.controllerHeading]).flatMap (fun t => headItems [t.1] t.2) ++
    (s.controllers.entries.filterMap tableHeading?).flatMap fun t =>
      headItems ["controllers", t.1] t.2

theorem onLine_of {key : String} (h : OnLine key) (r : Option (Item Float)) : onLine key r = r :=
  if_pos h

theorem whole_of_lt {n : Nat} (h : n < 2 ^ 63) :
    (whole n : Option (Toml Float)) = some (.integer n) :=
  if_pos h

theorem real_of_isNaN_eq_false {x : Float} (h : x.isNaN = false) : real x = some (.float x) := by
  rw [real, h]
  rfl

theorem controllerReadings_eq {entries : List (String × ControllerEntry)}
    (htidy : ∀ e ∈ entries, e.2.Tidy) (hkeys : ∀ e ∈ entries, OnLine e.1) :
    entries.filterMap controllerReading? =
      ((entries.filterMap controllerPair?).map fun p => .pair [p.1] (.plain p.2)).map some := by
  induction entries with
  | nil => rfl
  | cons e entries ih =>
    have ih := ih (fun e he => htidy e (List.mem_cons_of_mem _ he))
      fun e he => hkeys e (List.mem_cons_of_mem _ he)
    have hentry := htidy e List.mem_cons_self
    have hkey := hkeys e List.mem_cons_self
    obtain ⟨key, e⟩ := e
    cases e with
    | controller n =>
      have hn : n < 2 ^ 63 := Nat.lt_of_le_of_lt hentry (by decide)
      simp only [List.filterMap_cons, controllerReading?, controllerPair?, List.map_cons, ih,
        onLine_of hkey, whole_of_lt hn, pairOf, Option.map_some]
    | table table => exact ih

theorem tableReadings_eq {e : String × ControllerEntry} (htidy : e.2.Tidy) (hkey : OnLine e.1)
    (hkeys : ∀ key ∈ e.2.keys, OnLine key) :
    tableReadings e =
      ((tableHeading? e).toList.flatMap fun t => headItems ["controllers", t.1] t.2).map some := by
  obtain ⟨key, e⟩ := e
  cases e with
  | controller n => rfl
  | table table =>
    have hpairs : (table.map fun e => (onLine e.1 (pairOf e.1 (whole e.2)) : Option (Item Float))) =
        table.map fun e => some (.pair [e.1] (.plain (.integer e.2))) := by
      refine List.map_congr_left fun e he => ?_
      have hn : e.2 < 2 ^ 63 := Nat.lt_of_le_of_lt (htidy.2 e he) (by decide)
      rw [onLine_of (hkeys e.1 (List.mem_map_of_mem he)), whole_of_lt hn]
      rfl
    simp [tableReadings, tableHeading?, headItems, onLine_of hkey, hpairs]

theorem readings_eq {s : Settings Float} (h : s.Settled) (hl : s.Legible) :
    s.readings = s.items.map some := by
  have hentry (e : String × ControllerEntry) (he : e ∈ s.controllers.entries) :
      OnLine e.1 ∧ ∀ key ∈ e.2.keys, OnLine key :=
    ⟨hl.keys e.1 (List.mem_flatMap.mpr ⟨e, he, List.mem_cons_self⟩), fun key hkey =>
      hl.keys key (List.mem_flatMap.mpr ⟨e, he, List.mem_cons_of_mem _ hkey⟩)⟩
  have hpairs := controllerReadings_eq h.controllers.entries fun e he => (hentry e he).1
  have htables : s.controllers.entries.flatMap tableReadings =
      ((s.controllers.entries.filterMap tableHeading?).flatMap
        fun t => headItems ["controllers", t.1] t.2).map some := by
    rw [List.filterMap_eq_flatMap_toList, List.flatMap_assoc, List.map_flatMap]
    exact List.flatMap_congr fun e he =>
      tableReadings_eq (h.controllers.entries e he) (hentry e he).1 (hentry e he).2
  have hticks : s.midi.ticksPerBeat < 2 ^ 63 :=
    Nat.lt_of_le_of_lt (of_decide_eq_true h.ticks).2 (by decide)
  have hpitch : s.midi.defaultPitch < 2 ^ 63 := Nat.lt_of_le_of_lt h.pitch (by decide)
  have hreference : s.tune.reference < 2 ^ 63 := Nat.lt_of_le_of_lt h.reference (by decide)
  have hgrid : (s.script.grid.map fun x => pairOf "default_quant" (real x)).toList =
      ((s.script.grid.map fun x => ("default_quant", Toml.float x)).toList.map
        fun p => (.pair [p.1] (.plain p.2) : Item Float)).map some := by
    cases hx : s.script.grid with
    | none => rfl
    | some x =>
      have hreal := real_of_isNaN_eq_false (hl.grid x hx)
      simp only [Option.map_some, Option.toList_some, hreal, pairOf, List.map_cons, List.map_nil]
  rw [readings, hpairs, htables, hgrid, whole_of_lt hticks, whole_of_lt hpitch,
    whole_of_lt hreference, whole_of_lt hl.barsPerLine]
  simp [items, headings, controllerHeading, headItems, pairOf]

theorem onLine_of_ne_none {key : String} {r : Option (Item Float)} (h : onLine key r ≠ none) :
    OnLine key := by
  by_contra hlong
  exact h (if_neg hlong)

theorem legible_of_readings {s : Settings Float} (h : none ∉ s.readings) : s.Legible := by
  simp only [readings, List.mem_append, not_or] at h
  obtain ⟨⟨⟨⟨hfixed, hgrid⟩, -⟩, hpairs⟩, htables⟩ := h
  refine ⟨?_, ?_, ?_⟩
  · by_contra hbars
    have hnone : (whole s.tune.barsPerLine : Option (Toml Float)) = none := if_neg hbars
    simp [hnone, pairOf] at hfixed
  · intro x hx
    by_contra hnan
    have hnone : real x = none := if_pos (by simpa using hnan)
    simp [Option.mem_def.mp hx, hnone, pairOf] at hgrid
  · intro key hkey
    obtain ⟨⟨outer, e⟩, he, hkey⟩ := List.mem_flatMap.mp hkey
    cases e with
    | controller n =>
      obtain rfl : key = outer := by simpa [ControllerEntry.keys] using hkey
      exact onLine_of_ne_none fun hnone =>
        hpairs (List.mem_filterMap.mpr ⟨_, he, congrArg some hnone⟩)
    | table table =>
      have hreadings (r : Option (Item Float)) (hr : r ∈ tableReadings (outer, .table table)) :
          r ≠ none := by
        rintro rfl
        exact htables (List.mem_flatMap.mpr ⟨_, he, hr⟩)
      rcases List.mem_cons.mp hkey with rfl | hkey
      · exact onLine_of_ne_none (hreadings _ List.mem_cons_self)
      · obtain ⟨f, hf, rfl⟩ := List.mem_map.mp hkey
        exact onLine_of_ne_none
          (hreadings _ (List.mem_cons_of_mem _ (List.mem_map_of_mem hf)))

end Settings

/-! ## The table -/

def ControllerEntry.toToml : ControllerEntry → Toml Float
  | .controller n => .integer n
  | .table entries => .table (entries.map fun e => (e.1, .integer e.2))

namespace Settings

theorem entriesToJson_map {β : Type} (f : β → Toml Float) (entries : List (String × β)) :
    entriesToJson (entries.map fun e => (e.1, f e.2)) =
      entries.map fun e => (e.1, (f e.2).toJson) := by
  induction entries with
  | nil => rfl
  | cons e entries ih => exact congrArg (_ :: ·) ih

theorem toJson_toToml (e : ControllerEntry) : e.toToml.toJson = (e.toJson : Json Float) := by
  cases e with
  | controller n => rfl
  | table entries =>
    exact congrArg Json.obj (entriesToJson_map (fun n : Nat => .integer n) entries)

theorem perm_controllers {entries : List (String × ControllerEntry)}
    (htidy : ∀ e ∈ entries, e.2.Tidy) :
    (entries.filterMap controllerPair? ++ tablesOf (entries.filterMap tableHeading?)).Perm
      (entries.map fun e => (e.1, e.2.toToml)) := by
  induction entries with
  | nil => exact .nil
  | cons e entries ih =>
    have ih := ih fun e he => htidy e (List.mem_cons_of_mem _ he)
    have hentry := htidy e List.mem_cons_self
    obtain ⟨key, e⟩ := e
    cases e with
    | controller n => exact ih.cons _
    | table table =>
      have htable : Sorted.ofList (table.map fun e => (e.1, (.integer e.2 : Toml Float))) =
          table.map fun e => (e.1, .integer e.2) :=
        Sorted.ofList_eq_self (List.pairwise_map.mpr hentry.1)
      refine List.perm_middle.trans ?_
      simp only [htable, List.map_cons, ControllerEntry.toToml]
      exact ih.cons _

def table (s : Settings Float) : Sorted (Toml Float) :=
  [("controllers", .table (s.controllers.entries.map fun e => (e.1, e.2.toToml))),
    ("logging", .table [("level", .string s.log.level)]),
    ("midi", .table [("default_pitch", .integer s.midi.defaultPitch),
      ("ticks_per_beat", .integer s.midi.ticksPerBeat)]),
    ("notation", .table [("bars_per_line", .integer s.tune.barsPerLine),
      ("reference", .integer s.tune.reference), ("source", .string s.tune.source)]),
    ("script", .table ((s.script.grid.map fun x => ("default_quant", .float x)).toList ++
      [("server", .string s.script.server)]))]

theorem ascending_controllers {s : Settings Float} (h : s.controllers.Tidy) :
    Ascending (s.controllers.entries.map fun e => (e.1, e.2.toToml)) :=
  List.pairwise_map.mpr h.ascending

theorem ascending_of_keys {β : Type} {entries : List (String × β)} (keys : List String)
    (h : keys.Pairwise (· < ·)) (hkeys : entries.map Prod.fst = keys) : Ascending entries :=
  List.pairwise_map.mp (hkeys ▸ h)

theorem ofList_headings (s : Settings Float) (controllers : Toml Float) :
    Sorted.ofList (tablesOf s.headings ++ [("controllers", controllers)]) =
      ("controllers", controllers) :: s.table.tail := by
  have hmidi (pitch ticks : Toml Float) :
      Sorted.ofList [("ticks_per_beat", ticks), ("default_pitch", pitch)] =
        [("default_pitch", pitch), ("ticks_per_beat", ticks)] :=
    Sorted.ofList_eq_of_perm
      (ascending_of_keys ["default_pitch", "ticks_per_beat"] (by decide) rfl) (.swap _ _ _)
  have htune (reference bars source : Toml Float) :
      Sorted.ofList [("reference", reference), ("bars_per_line", bars), ("source", source)] =
        [("bars_per_line", bars), ("reference", reference), ("source", source)] :=
    Sorted.ofList_eq_of_perm
      (ascending_of_keys ["bars_per_line", "reference", "source"] (by decide) rfl) (.swap _ _ _)
  have hscript (server : Toml Float) (grid : Option Float) :
      Sorted.ofList (("server", server) ::
          (grid.map fun x => ("default_quant", Toml.float x)).toList) =
        (grid.map fun x => ("default_quant", Toml.float x)).toList ++ [("server", server)] := by
    cases grid with
    | none => rfl
    | some x =>
      exact Sorted.ofList_eq_of_perm
        (ascending_of_keys ["default_quant", "server"] (by decide) rfl) (.swap _ _ _)
  have hlog (level : Toml Float) : Sorted.ofList [("level", level)] = [("level", level)] := rfl
  refine Sorted.ofList_eq_of_perm (ascending_of_keys
    ["controllers", "logging", "midi", "notation", "script"] (by decide) rfl) ?_
  simp only [headings, tablesOf, List.map_cons, List.map_nil, hmidi, htune, hscript, hlog]
  exact List.perm_append_singleton _ _

theorem tableOf_items {s : Settings Float} (h : s.Settled) {found : List (Placed Float)}
    (hfound : found.map Placed.item = s.items) : tableOf found = .ok s.table := by
  -- controllers and tables of them stand apart in the text; their table has them in one order again
  have hperm := perm_controllers h.controllers.entries
  have hinner : Distinct (s.controllerHeading.2 ++
      tablesOf (s.controllers.entries.filterMap tableHeading?)) :=
    (hperm.pairwise_iff fun h => Ne.symm h).mpr (ascending_controllers h.controllers).distinct
  have hinnerPairs : ∀ t ∈ s.controllers.entries.filterMap tableHeading?, Distinct t.2 := by
    intro t ht
    obtain ⟨⟨key, e⟩, he, ht⟩ := List.mem_filterMap.mp ht
    cases e with
    | controller n => cases ht
    | table table =>
      cases ht
      exact (Sorted.Ascending.distinct (List.pairwise_map.mpr (h.controllers.entries _ he).1))
  have hkeys : Distinct (s.headings ++ [s.controllerHeading]) := by
    simp [Distinct, headings, controllerHeading]
  have hheadings : ∀ t ∈ s.headings, Distinct t.2 := by
    cases hgrid : s.script.grid <;> simp [headings, Distinct, hgrid]
  have hpairs : ∀ t ∈ s.headings ++ [s.controllerHeading], Distinct t.2 := by
    intro t ht
    rcases List.mem_append.mp ht with ht | ht
    · exact hheadings t ht
    · rw [List.mem_singleton.mp ht]
      exact (List.pairwise_append.mp hinner).1
  have hcontrollers : Sorted.ofList (s.controllerHeading.2 ++
      tablesOf (s.controllers.entries.filterMap tableHeading?)) =
        s.controllers.entries.map fun e => (e.1, e.2.toToml) :=
    Sorted.ofList_eq_of_perm (ascending_controllers h.controllers) hperm
  rw [tableOf_headings hfound hkeys hpairs hinner hinnerPairs, hcontrollers]
  exact congrArg Except.ok (ofList_headings s _)

theorem head?_text (s : Settings Float) : (textOf s.lines).toList.head? ≠ some byteOrderMark := by
  have hlines : s.lines = "# tessitura configuration" :: s.lines.tail := rfl
  rw [hlines, toList_textOf_cons]
  show some '#' ≠ some byteOrderMark
  decide

theorem parse_text {s : Settings Float} (h : s.Settled) (hl : s.Legible) :
    Toml.parse s.text = .ok s.table := by
  have hlines := holds_lines s
  rw [readings_eq h hl] at hlines
  obtain ⟨found, hfound, hparse⟩ := parse_of_holds (head?_text s) hlines
  exact hparse _ (tableOf_items h hfound)

theorem parse_text_error {s : Settings Float} (hl : ¬ s.Legible) :
    ∃ fault, (Toml.parse s.text : Except Toml.Fault (Sorted (Toml Float))) = .error fault := by
  refine parse_of_none_mem (head?_text s) (holds_lines s) ?_
  by_contra hnone
  exact hl (legible_of_readings hnone)

/-! ## The settings of the table -/

open Json

theorem read_log (log : LogSection) :
    LogSection.read (.obj [("level", .str log.level)] : Json Float) = .ok log :=
  asRecord_obj (Fills.field LogSection.mk rfl rfl) rfl

theorem read_midi {midi : MidiSection} (hpitch : midi.defaultPitch ≤ 255)
    (hticks : midi.ticksPerBeat ≤ 65535) :
    MidiSection.read (.obj [("default_pitch", .int midi.defaultPitch),
      ("ticks_per_beat", .int midi.ticksPerBeat)] : Json Float) = .ok midi := by
  have hpitch : asByte (.int midi.defaultPitch : Json Float) = .ok midi.defaultPitch :=
    natural_int (Int.ofNat_le.mpr hpitch) _
  have hticks : asNat16 (.int midi.ticksPerBeat : Json Float) = .ok midi.ticksPerBeat :=
    natural_int (Int.ofNat_le.mpr hticks) _
  refine asRecord_obj (Fills.field_cons (MidiSection.mk 480) hpitch rfl ?_) rfl
  exact Fills.field (MidiSection.mk · midi.defaultPitch) hticks rfl

theorem read_tune {tune : TuneSection} (hreference : tune.reference ≤ 4294967295)
    (hbars : tune.barsPerLine ≤ 18446744073709551615) :
    TuneSection.read (.obj [("bars_per_line", .int tune.barsPerLine),
      ("reference", .int tune.reference), ("source", .str tune.source)] : Json Float) =
        .ok tune := by
  have hreference : asNat32 (.int tune.reference : Json Float) = .ok tune.reference :=
    natural_int (Int.ofNat_le.mpr hreference) _
  have hbars : asNat64 (.int tune.barsPerLine : Json Float) = .ok tune.barsPerLine :=
    natural_int (Int.ofNat_le.mpr hbars) _
  refine asRecord_obj (Fills.field_cons (TuneSection.mk 1 · "tessitura") hbars rfl ?_) rfl
  refine Fills.field_cons (TuneSection.mk · tune.barsPerLine "tessitura") hreference rfl ?_
  exact Fills.field (TuneSection.mk tune.reference tune.barsPerLine) rfl rfl

theorem read_script (script : ScriptSection Float) :
    ScriptSection.read (.obj ((script.grid.map fun x => ("default_quant", .real x)).toList ++
      [("server", .str script.server)])) = .ok script := by
  obtain ⟨server, grid⟩ := script
  cases grid with
  | none => exact asRecord_obj (Fills.field (ScriptSection.mk · none) rfl rfl) rfl
  | some x =>
    refine asRecord_obj (Fills.field_cons (ScriptSection.mk "s") rfl rfl ?_) rfl
    exact Fills.field (ScriptSection.mk · (some x)) rfl rfl

theorem ofTable_table {s : Settings Float} (h : s.Settled) (hl : s.Legible) :
    ofTable s.table = .ok s := by
  have hticks : s.midi.ticksPerBeat ≤ 65535 :=
    Nat.le_trans (of_decide_eq_true h.ticks).2 (by decide)
  have hbars : s.tune.barsPerLine ≤ 18446744073709551615 :=
    Nat.le_trans (Nat.le_of_lt hl.barsPerLine) (by decide)
  have hcontrollers : entriesToJson (s.controllers.entries.map fun e => (e.1, e.2.toToml)) =
      s.controllers.entries.map fun e => (e.1, e.2.toJson) := by
    rw [entriesToJson_map]
    exact List.map_congr_left fun e _ => by rw [toJson_toToml]
  have hscript : entriesToJson
      ((s.script.grid.map fun x => ("default_quant", Toml.float x)).toList ++
        [("server", .string s.script.server)]) =
        (s.script.grid.map fun x => ("default_quant", .real x)).toList ++
          [("server", .str s.script.server)] := by
    cases s.script.grid <;> rfl
  have hjson : (Toml.table s.table).toJson =
      .obj [("controllers", s.controllers.toJson), ("logging", .obj [("level", .str s.log.level)]),
        ("midi", .obj [("default_pitch", .int s.midi.defaultPitch),
          ("ticks_per_beat", .int s.midi.ticksPerBeat)]),
        ("notation", .obj [("bars_per_line", .int s.tune.barsPerLine),
          ("reference", .int s.tune.reference), ("source", .str s.tune.source)]),
        ("script", .obj ((s.script.grid.map fun x => ("default_quant", .real x)).toList ++
          [("server", .str s.script.server)]))] := by
    simp only [table, Toml.toJson, entriesToJson, hcontrollers, hscript, ControllerMap.toJson]
  refine (congrArg read hjson).trans (asRecord_obj (d := s) ?_ rfl)
  refine Fills.field_cons (Settings.mk .standard .standard .standard .standard)
    (read_toJson h.controllers) rfl ?_
  refine Fills.field_cons (Settings.mk · .standard .standard .standard s.controllers)
    (read_log s.log) rfl ?_
  refine Fills.field_cons (Settings.mk s.log · .standard .standard s.controllers)
    (read_midi h.pitch hticks) rfl ?_
  refine Fills.field_cons (Settings.mk s.log s.midi · .standard s.controllers)
    (read_tune h.reference hbars) rfl ?_
  exact Fills.field (Settings.mk s.log s.midi s.tune · s.controllers) (read_script s.script) rfl

/-! ## Settings loaded from their text -/

theorem ascending_table (s : Settings Float) : Ascending s.table :=
  ascending_of_keys ["controllers", "logging", "midi", "notation", "script"] (by decide) rfl

/-- The text of legible settings, as the only file, gives the settings. -/
theorem load_text {s : Settings Float} (h : s.Settled) (hl : s.Legible) (name : String) :
    loadSettings [⟨name, .ok s.text⟩] (fun _ => none) = .ok ⟨s, [name], []⟩ := by
  have htable : SettingsFile.table ⟨name, .ok s.text⟩ = .ok s.table := by
    simp only [SettingsFile.table, parse_text h hl, ofTable_table h hl]
  have hmerged : mergedTable [⟨name, .ok s.text⟩] = .ok s.table := by
    rw [mergedTable, List.foldlM_cons, htable]
    exact congrArg Except.ok (overlayTable_nil (ascending_table s))
  have hsettings (origin : String) : settingsOfTable origin s.table = .ok s := by
    simp only [settingsOfTable, ofTable_table h hl, if_pos h.ticks, h.merged]
  unfold loadSettings
  rw [hmerged]
  show (settingsOfTable _ s.table >>= _) = _
  rw [hsettings]
  rfl

theorem load_text_error {s : Settings Float} (hl : ¬ s.Legible) (name : String) :
    ∃ e, (loadSettings [⟨name, .ok s.text⟩] (fun _ => none) :
      Except SettingsError (LoadedSettings Float)) = .error e := by
  obtain ⟨fault, hfault⟩ := parse_text_error hl
  have htable : (SettingsFile.table ⟨name, .ok s.text⟩ :
      Except SettingsError (Sorted (Toml Float))) = .error (.unparsed name fault.message) := by
    simp only [SettingsFile.table, hfault]
  refine ⟨.unparsed name fault.message, ?_⟩
  unfold loadSettings mergedTable
  rw [List.foldlM_cons, htable]
  rfl

/-- Settings that have been loaded, from whatever files and variables, are loaded again from their
text alone if and only if they are legible. -/
theorem loadSettings_text_iff {files : List SettingsFile} {environment : String → Option String}
    {loaded : LoadedSettings Float} (h : loadSettings files environment = .ok loaded)
    (name : String) :
    loadSettings [⟨name, .ok loaded.settings.text⟩] (fun _ => none) =
        .ok ⟨loaded.settings, [name], []⟩ ↔
      loaded.settings.Legible := by
  refine ⟨fun hload => ?_, fun hl => load_text (settled_of_load h) hl name⟩
  by_contra hl
  obtain ⟨e, he⟩ := load_text_error hl name
  rw [he] at hload
  cases hload

theorem loadSettings_text_iff_bars :
    (∃ loaded : LoadedSettings Float, loadSettings [] (fun _ => none) = .ok loaded ∧
      loadSettings [⟨"tessitura.toml", .ok loaded.settings.text⟩] (fun _ => none) =
        .ok ⟨loaded.settings, ["tessitura.toml"], []⟩) ∧
    ∃ loaded : LoadedSettings Float,
      loadSettings [] (fun v => if v = "TESSITURA_BARS_PER_LINE" then some "9223372036854775808"
        else none) = .ok loaded ∧
      loadSettings [⟨"tessitura.toml", .ok loaded.settings.text⟩] (fun _ => none) ≠
        .ok ⟨loaded.settings, ["tessitura.toml"], []⟩ := by
  have husual : loadSettings [] (fun _ => none) =
      .ok (⟨⟨.standard, .standard, .standard, .standard,
        ControllerMap.standard.merge .standard⟩, [], []⟩ : LoadedSettings Float) := rfl
  have hbars : loadSettings [] (fun v => if v = "TESSITURA_BARS_PER_LINE" then
        some "9223372036854775808" else none) =
      .ok (⟨⟨.standard, .standard, ⟨1, 2 ^ 63, "tessitura"⟩, .standard,
        ControllerMap.standard.merge .standard⟩, [], ["TESSITURA_BARS_PER_LINE"]⟩ :
          LoadedSettings Float) := rfl
  refine ⟨⟨_, husual, (loadSettings_text_iff husual "tessitura.toml").mpr ?_⟩, _, hbars,
    fun h => ?_⟩
  · exact ⟨by decide, fun _ h => (nomatch h), by decide +kernel⟩
  · exact Nat.lt_irrefl _ ((loadSettings_text_iff hbars "tessitura.toml").mp h).barsPerLine

end Settings

end Partitura
