import Partitura.Proofs.Script.Plans
import Partitura.Proofs.Script.Requests

/-!
# Signals in the lines of a script

The way of a signal is read off the texts of lines: the bus that a line allocates, the effect that
a block defines, the synth that a line starts from a bus to an outlet, and the outlet of a pattern.
A line that says one of these is a row of fixed texts with a word after each of them. Names that are
handed out are words, so that they end where the next fixed text begins.
-/

namespace Partitura.Script

/-! ## Words in a text -/

def isWordChar (c : Char) : Bool := c.isAlphanum || c == '_' || c == '~'

def IsWord (s : String) : Prop := ∀ c ∈ s.toList, isWordChar c = true

/-- The words after fixed texts, as far as each of them goes, and what is left after the last. -/
def wordsAfter? : List String → List Char → Option (List String × List Char)
  | [], cs => some ([], cs)
  | fixed :: later, cs =>
    match fixed.toList.isPrefixOf? cs with
    | some cs =>
      (wordsAfter? later (cs.dropWhile isWordChar)).map fun found =>
        (String.ofList (cs.takeWhile isWordChar) :: found.1, found.2)
    | none => none

def words? (fixed : List String) (ending text : String) : Option (List String) :=
  match wordsAfter? fixed text.toList with
  | some (words, rest) => if rest = ending.toList then some words else none
  | none => none

theorem wordsAfter?_cons {word : String} {cs : List Char} (fixed : String) (later : List String)
    (hword : IsWord word) (hstop : ∀ c ∈ cs.head?, isWordChar c = false) :
    wordsAfter? (fixed :: later) (fixed.toList ++ (word.toList ++ cs)) =
      (wordsAfter? later cs).map fun found => (word :: found.1, found.2) := by
  obtain ⟨htake, hdrop⟩ := takeWhile_append_stop cs hword hstop
  have hrest : fixed.toList.isPrefixOf? (fixed.toList ++ (word.toList ++ cs)) =
      some (word.toList ++ cs) := List.isPrefixOf?_eq_some_iff_append_eq.mpr rfl
  simp only [wordsAfter?, hrest, htake, hdrop, String.ofList_toList]

theorem wordsAfter?_of_not_opens {fixed : String} {later : List String} {cs : List Char}
    (h : fixed.toList.isPrefixOf? cs = none) : wordsAfter? (fixed :: later) cs = none := by
  rw [wordsAfter?, h]

theorem mem_of_wordsAfter? {fixed words : List String} {cs rest : List Char} {c : Char}
    (h : wordsAfter? fixed cs = some (words, rest)) (hc : c ∈ cs) :
    (∃ text ∈ fixed, c ∈ text.toList) ∨ isWordChar c = true ∨ c ∈ rest := by
  induction fixed generalizing cs words with
  | nil =>
    obtain rfl : cs = rest := congrArg Prod.snd (Option.some.inj h)
    exact .inr (.inr hc)
  | cons text later ih =>
    cases hopens : text.toList.isPrefixOf? cs with
    | none => simp [wordsAfter?, hopens] at h
    | some cs' =>
      simp only [wordsAfter?, hopens, Option.map_eq_some_iff, Prod.mk.injEq] at h
      obtain ⟨⟨words', rest'⟩, hlater, -, rfl⟩ := h
      rw [← List.isPrefixOf?_eq_some_iff_append_eq.mp hopens, List.mem_append] at hc
      rcases hc with hc | hc
      · exact .inl ⟨text, List.mem_cons_self, hc⟩
      · rw [← List.takeWhile_append_dropWhile (p := isWordChar) (l := cs'), List.mem_append] at hc
        rcases hc with hc | hc
        · exact .inr (.inl (List.mem_takeWhile_imp hc))
        · refine (ih hlater hc).imp_left ?_
          rintro ⟨found, hfound, hmem⟩
          exact ⟨found, List.mem_cons_of_mem text hfound, hmem⟩

/-! ## Reading lines -/

def busName? (word : String) : Option String :=
  ("~bus_".toList.isPrefixOf? word.toList).map String.ofList

/-- The outlet that a word stands for: zero is the hardware, all others are buses. -/
def outletOf? (word : String) : Option Outlet :=
  if word = "0" then some .hardware else (busName? word).map .bus

def allocatedBus? (server : String) : Line → Option String
  | .plain text =>
    match words? [""] (" = Bus.audio(" ++ server ++ ", 2);") text with
    | some [name] => busName? name
    | _ => none
  | _ => none

/-- A synth with its variable, the bus that it reads and the outlet that it plays to. -/
structure StartedSynth where
  name : String
  symbol : String
  input : String
  output : Outlet
deriving DecidableEq, Repr

def startedSynth? (server : String) : Line → Option StartedSynth
  | .plain text =>
    match words? ["", " = Synth.tail(" ++ server ++ ", \\", ", [\\in, ", ", \\out, "] "]);" text with
    | some [name, symbol, input, output] =>
      match busName? input, outletOf? output with
      | some bus, some outlet => some ⟨name, symbol, bus, outlet⟩
      | _, _ => none
    | _ => none
  | _ => none

def patternOutlet? : Line → Option Outlet
  | .plain text =>
    match words? ["\\out, "] "," text with
    | some [word] => outletOf? word
    | _ => none
  | _ => none

def definedSymbol? (text : String) : Option String :=
  match wordsAfter? ["SynthDef(\\"] text.toList with
  | some ([symbol], _) => some symbol
  | _ => none

/-- What the definition of an effect begins with: it takes its sound from a bus. -/
def effectOpening : String := "var sig = In.ar(in, 2);"

def definedEffects : List Line → List String
  | .opening text :: .plain first :: rest =>
    if first = effectOpening then (definedSymbol? text).toList ++ definedEffects rest
    else definedEffects rest
  | _ :: rest => definedEffects rest
  | [] => []

theorem busName?_bus (name : String) : busName? (Variable.bus name).text = some name := by
  have hrest : "~bus_".toList.isPrefixOf? (Variable.bus name).text.toList = some name.toList := by
    rw [List.isPrefixOf?_eq_some_iff_append_eq, Variable.text, String.toList_append]
  rw [busName?, hrest, Option.map_some, String.ofList_toList]

theorem outletOf?_text (outlet : Outlet) : outletOf? outlet.text = some outlet := by
  cases outlet with
  | hardware => rfl
  | bus name =>
    have hne : (Variable.bus name).text ≠ "0" := by
      simp [Variable.text, ← String.toList_inj]
    rw [Outlet.text, outletOf?, if_neg hne, busName?_bus, Option.map_some]

/-! ## Names are words -/

theorem IsWord.append {s t : String} (h : IsWord s) (h' : IsWord t) : IsWord (s ++ t) := by
  intro c hc
  rw [String.toList_append, List.mem_append] at hc
  exact hc.elim (h c) (h' c)

theorem isWord_effectSymbol_iff {name : String} : IsWord (effectSymbol name) ↔ IsWord name := by
  have hfx : IsWord "fx_" := List.all_eq_true.mp rfl
  refine ⟨fun h c hc => h c ?_, hfx.append⟩
  rw [effectSymbol, String.toList_append]
  exact List.mem_append_right _ hc

theorem isWord_variable {v : Variable} {name : String} (h : IsWord name)
    (hv : v = .bus name ∨ v = .effect name) : IsWord v.text := by
  have hbus : IsWord "~bus_" := List.all_eq_true.mp rfl
  have hfx : IsWord "~fx_" := List.all_eq_true.mp rfl
  rcases hv with rfl | rfl
  · exact hbus.append h
  · exact hfx.append h

theorem IsIdentifier.isWord {s : String} (h : IsIdentifier s) : IsWord s := by
  obtain ⟨first, rest, hs, hlower, hrest⟩ := h
  have halphanum {c : Char} (hc : c.isAlphanum = true) : isWordChar c = true := by
    rw [isWordChar, hc, Bool.true_or, Bool.true_or]
  intro c hc
  rw [hs] at hc
  rcases List.mem_cons.mp hc with rfl | hc
  · refine halphanum ?_
    show ((c.isUpper || c.isLower) || c.isDigit) = true
    rw [hlower, Bool.or_true, Bool.true_or]
  · rcases hrest c hc with hc | rfl
    · exact halphanum hc
    · rfl

def Outlet.IsWord : Outlet → Prop
  | hardware => True
  | bus name => Script.IsWord name

theorem Outlet.IsWord.text {outlet : Outlet} (h : outlet.IsWord) : Script.IsWord outlet.text := by
  cases outlet with
  | hardware => exact List.all_eq_true.mp rfl
  | bus name => exact isWord_variable h (.inl rfl)

/-! ## What statements write -/

theorem stops_of_head? {text : String} {c : Char} (h : text.toList.head? = some c)
    (hc : isWordChar c = false) (cs : List Char) :
    ∀ d ∈ (text.toList ++ cs).head?, isWordChar d = false := by
  intro d hd
  rw [List.head?_append, h, Option.some_or] at hd
  rw [← Option.some.inj hd]
  exact hc

variable {α : Type} [Scalar α]

def Statement.synth? : Statement α → Option StartedSynth
  | .effect name outlet => some ⟨"~fx_" ++ name, "fx_" ++ name, name, outlet⟩
  | _ => none

theorem allocatedBus?_audioBus (server : String) {name : String} (h : IsWord name) :
    ((Statement.audioBus (α := α) name).lines server).filterMap (allocatedBus? server) =
      [name] := by
  let ending := " = Bus.audio(" ++ server ++ ", 2);"
  have hend : ending.toList.head? = some ' ' := by simp [ending]
  have htext : ((Variable.bus name).text ++ " = Bus.audio(" ++ server ++ ", 2);").toList =
      "".toList ++ ((Variable.bus name).text.toList ++ (ending.toList ++ [])) := by
    simp [ending]
  have hwords : words? [""] ending ((Variable.bus name).text ++ " = Bus.audio(" ++ server
      ++ ", 2);") = some [(Variable.bus name).text] := by
    rw [words?, htext, wordsAfter?_cons "" [] (isWord_variable h (.inl rfl))
      (stops_of_head? hend rfl [])]
    simp [wordsAfter?]
  have hline : allocatedBus? server (.plain ((Variable.bus name).text ++ " = Bus.audio("
      ++ server ++ ", 2);")) = some name := by
    simp only [allocatedBus?]
    rw [hwords]
    exact busName?_bus name
  rw [Statement.lines, List.filterMap_cons_some hline, List.filterMap_nil]

theorem startedSynth?_effect (server : String) {name : String} {outlet : Outlet}
    (hname : IsWord name) (houtlet : outlet.IsWord) :
    ((Statement.effect (α := α) name outlet).lines server).filterMap (startedSynth? server) =
      [⟨"~fx_" ++ name, "fx_" ++ name, name, outlet⟩] := by
  let tail := " = Synth.tail(" ++ server ++ ", \\"
  let text := (Variable.effect name).text ++ " = Synth.tail(" ++ server ++ ", \\"
    ++ effectSymbol name ++ ", [\\in, " ++ (Variable.bus name).text ++ ", \\out, "
    ++ outlet.text ++ "]);"
  have htail : tail.toList.head? = some ' ' := by simp [tail]
  have htext : text.toList = "".toList ++ ((Variable.effect name).text.toList ++ (tail.toList
      ++ ((effectSymbol name).toList ++ (", [\\in, ".toList ++ ((Variable.bus name).text.toList
      ++ (", \\out, ".toList ++ (outlet.text.toList ++ ("]);".toList ++ [])))))))) := by
    simp [text, tail]
  have hwords : words? ["", tail, ", [\\in, ", ", \\out, "] "]);" text =
      some [(Variable.effect name).text, effectSymbol name, (Variable.bus name).text,
        outlet.text] := by
    rw [words?, htext, wordsAfter?_cons _ _ (isWord_variable hname (.inr rfl))
        (stops_of_head? htail rfl _),
      wordsAfter?_cons _ _ (isWord_effectSymbol_iff.mpr hname) (stops_of_head? rfl rfl _),
      wordsAfter?_cons _ _ (isWord_variable hname (.inl rfl)) (stops_of_head? rfl rfl _),
      wordsAfter?_cons _ _ houtlet.text (stops_of_head? rfl rfl _)]
    simp [wordsAfter?]
  have hline : startedSynth? server (.plain text) =
      some ⟨"~fx_" ++ name, "fx_" ++ name, name, outlet⟩ := by
    simp only [startedSynth?]
    rw [hwords]
    simp only [busName?_bus, outletOf?_text]
    rfl
  rw [Statement.lines, List.filterMap_cons_some hline, List.filterMap_nil]

theorem startedSynth?_comment (server text : String) :
    ((Statement.comment (α := α) text).lines server).filterMap (startedSynth? server) = [] := by
  let tail := " = Synth.tail(" ++ server ++ ", \\"
  have hslash : ("// " ++ text).toList.head? = some '/' := by simp
  have htail : tail.toList.isPrefixOf? ("// " ++ text).toList = none := by
    simp [tail, List.isPrefixOf?]
  have hempty : ("// " ++ text).toList =
      "".toList ++ ("".toList ++ (("// " ++ text).toList ++ [])) := by simp
  -- a comment begins with no word, so a synth would have to go on where it begins
  have hwords : words? ["", tail, ", [\\in, ", ", \\out, "] "]);" ("// " ++ text) = none := by
    rw [words?, hempty, wordsAfter?_cons "" _ (by simp [IsWord]) (stops_of_head? hslash rfl []),
      List.append_nil, wordsAfter?_of_not_opens htail]
    rfl
  have hline : startedSynth? server (.plain ("// " ++ text)) = none := by
    simp only [startedSynth?]
    rw [hwords]
  rw [Statement.lines, Line.comment, List.filterMap_cons_none hline, List.filterMap_nil]

/-- The synths that are written are those of the statements. -/
theorem startedSynths_lines (server : String) {statements : List (Statement α)}
    (h : ∀ st ∈ statements, (∃ text, st = .comment text) ∨
      ∃ name outlet, st = .effect name outlet ∧ IsWord name ∧ outlet.IsWord) :
    (statements.flatMap (Statement.lines server)).filterMap (startedSynth? server) =
      statements.filterMap Statement.synth? := by
  induction statements with
  | nil => rfl
  | cons st rest ih =>
    rw [List.flatMap_cons, List.filterMap_append,
      ih fun other hother => h other (List.mem_cons_of_mem st hother)]
    rcases h st List.mem_cons_self with ⟨text, rfl⟩ | ⟨name, outlet, rfl, hname, houtlet⟩
    · rw [startedSynth?_comment]
      rfl
    · rw [startedSynth?_effect server hname houtlet]
      rfl

theorem allocatedBuses_lines (server : String) {names : List String}
    (h : ∀ name ∈ names, IsWord name) :
    ((names.map (Statement.audioBus (α := α))).flatMap (Statement.lines server)).filterMap
      (allocatedBus? server) = names := by
  induction names with
  | nil => rfl
  | cons name rest ih =>
    rw [List.map_cons, List.flatMap_cons, List.filterMap_append,
      allocatedBus?_audioBus server (h name List.mem_cons_self),
      ih fun other hother => h other (List.mem_cons_of_mem name hother), List.singleton_append]

/-! ## What patterns write -/

theorem patternOutlet?_of_not_opens {text : String}
    (h : "\\out, ".toList.isPrefixOf? text.toList = none) : patternOutlet? (.plain text) = none := by
  rw [patternOutlet?, words?, wordsAfter?_of_not_opens h]

theorem patternOutlet?_mapping (text : String) :
    patternOutlet? (.plain (text ++ ".asMap,")) = none := by
  have hnone : words? ["\\out, "] "," (text ++ ".asMap,") = none := by
    unfold words?
    split
    · next words rest hwords =>
      refine if_neg fun hrest => ?_
      have hdot : '.' ∈ (text ++ ".asMap,").toList := by simp
      rw [hrest] at hwords
      rcases mem_of_wordsAfter? hwords hdot with ⟨fixed, hfixed, hmem⟩ | hword | hmem
      · rw [List.mem_singleton.mp hfixed] at hmem
        exact absurd hmem (by decide)
      · exact absurd hword (by decide)
      · exact absurd hmem (by decide)
    · rfl
  simp only [patternOutlet?, hnone]

theorem patternOutlet?_outlet {outlet : Outlet} (h : outlet.IsWord) :
    patternOutlet? (.plain ("\\out, " ++ outlet.text ++ ",")) = some outlet := by
  have htext : ("\\out, " ++ outlet.text ++ ",").toList =
      "\\out, ".toList ++ (outlet.text.toList ++ (",".toList ++ [])) := by simp
  have hwords : words? ["\\out, "] "," ("\\out, " ++ outlet.text ++ ",") = some [outlet.text] := by
    rw [words?, htext, wordsAfter?_cons _ _ h.text (stops_of_head? rfl rfl _)]
    simp [wordsAfter?]
  simp only [patternOutlet?]
  rw [hwords]
  exact outletOf?_text outlet

theorem patternOutlet?_row (r : Row α) : patternOutlet? (.plain (r.text ++ ",")) = none := by
  refine patternOutlet?_of_not_opens ?_
  cases r <;> simp [Row.text, restText, List.isPrefixOf?]

theorem patternOutlets_lines {pattern : Pattern α} (h : pattern.outlet.IsWord) :
    pattern.lines.filterMap patternOutlet? = [pattern.outlet] := by
  have hinstrument : patternOutlet? (.plain ("\\instrument, \\" ++ pattern.instrument ++ ",")) =
      none := patternOutlet?_of_not_opens (by simp [List.isPrefixOf?])
  have hgroup : patternOutlet? (.plain ("\\group, " ++ (Variable.group pattern.name).text ++ ",")) =
      none := patternOutlet?_of_not_opens (by simp [List.isPrefixOf?])
  have hmappings : (pattern.mappings.map fun m => Line.plain ("\\" ++ m.1 ++ ", "
      ++ (Variable.modulatorBus m.2).text ++ ".asMap,")).filterMap patternOutlet? = [] := by
    rw [List.filterMap_map]
    exact List.filterMap_eq_nil_iff.mpr fun m _ => patternOutlet?_mapping _
  have hrows : (pattern.rows.map fun r => Line.plain (r.text ++ ",")).filterMap
      patternOutlet? = [] := by
    rw [List.filterMap_map]
    exact List.filterMap_eq_nil_iff.mpr fun r _ => patternOutlet?_row r
  simp only [Pattern.lines, List.filterMap_append, hmappings, hrows, List.filterMap_cons,
    hinstrument, hgroup, patternOutlet?_outlet h, List.filterMap_nil, List.append_nil]
  rfl

/-! ## What definitions write -/

theorem definedSymbol?_opening {name : String} (h : IsWord name) (signature : String) :
    definedSymbol? ("SynthDef(\\" ++ name ++ ", \x7b " ++ signature) = some name := by
  have htext : ("SynthDef(\\" ++ name ++ ", \x7b " ++ signature).toList =
      "SynthDef(\\".toList ++ (name.toList ++ (", \x7b ".toList ++ signature.toList)) := by simp
  rw [definedSymbol?, htext, wordsAfter?_cons _ _ h (stops_of_head? rfl rfl _)]
  rfl

theorem definedEffects_plain (texts : List String) (rest : List Line) :
    definedEffects (texts.map .plain ++ rest) = definedEffects rest := by
  induction texts with
  | nil => rfl
  | cons text texts ih => simpa [definedEffects] using ih

theorem definedEffects_block {text first : String} (texts : List String) (closing : String)
    (rest : List Line) (h : first ≠ effectOpening) :
    definedEffects (.opening text :: ((first :: texts).map .plain ++ .closing closing :: rest)) =
      definedEffects rest := by
  rw [List.map_cons, List.cons_append, definedEffects, if_neg h, definedEffects_plain]
  rfl

/-- A block tells of an effect what its definition does. -/
theorem definedEffects_lines {d : Definition α} (hword : d.purpose = .effect → IsWord d.name)
    (hmodulator : d.purpose = .modulator →
      ∃ first later, d.template.body = first :: later ∧ first ≠ effectOpening) (rest : List Line) :
    definedEffects (d.lines ++ rest) =
      (if d.purpose == .effect then [d.name] else []) ++ definedEffects rest := by
  simp only [Definition.lines, List.cons_append, List.append_assoc, List.nil_append]
  cases hpurpose : d.purpose with
  | instrument => exact definedEffects_block _ _ rest (by decide)
  | modulator =>
    obtain ⟨first, later, hbody, hne⟩ := hmodulator hpurpose
    rw [Purpose.wrap, hbody]
    exact definedEffects_block later _ rest hne
  | effect =>
    have hsymbol := definedSymbol?_opening (hword hpurpose) d.template.signature
    have hopening : "var sig = In.ar(in, 2);" = effectOpening := rfl
    rw [Purpose.wrap, List.cons_append, List.map_cons, List.cons_append, definedEffects,
      if_pos hopening, hsymbol, definedEffects_plain]
    rfl

theorem definedEffects_flatMap {definitions : List (Definition α)}
    (h : ∀ d ∈ definitions, (d.purpose = .effect → IsWord d.name) ∧ (d.purpose = .modulator →
      ∃ first later, d.template.body = first :: later ∧ first ≠ effectOpening)) :
    definedEffects (definitions.flatMap Definition.lines) =
      (definitions.filter fun d => d.purpose == .effect).map Definition.name := by
  induction definitions with
  | nil => rfl
  | cons d rest ih =>
    obtain ⟨hword, hmodulator⟩ := h d List.mem_cons_self
    rw [List.flatMap_cons, definedEffects_lines hword hmodulator,
      ih fun other hother => h other (List.mem_cons_of_mem d hother), List.filter_cons]
    split <;> rfl

/-! ## Names of nodes and links -/

omit [Scalar α]

theorem Names.getAll_eq_answers (names : Names) (keys : List String) :
    names.getAll keys = names.answers (keys.map .get) := by
  induction keys generalizing names with
  | nil => rfl
  | cons key rest ih =>
    rw [List.map_cons, answers_cons, getAll]
    simp only [ih]
    rfl

theorem isWord_getAll (requests : List Request) (keys : List String) :
    ∀ name ∈ ((Names.empty.answers requests).2.getAll keys).1, IsWord name := by
  intro name hname
  rw [Names.getAll_eq_answers] at hname
  have hkept := (kept_answers requests).answers (keys.map .get)
  exact (hkept.identifiers name (List.mem_append_right _ hname)).isWord

theorem isWord_nameNodes {graph : List (GraphNode α)} {names : List String}
    (h : ∀ name ∈ names, IsWord name) : ∀ n ∈ nameNodes graph names, IsWord n.name := by
  intro n hn
  rw [nameNodes, ← List.map_uncurry_zip_eq_zipWith] at hn
  obtain ⟨⟨node, name⟩, hmem, rfl⟩ := List.mem_map.mp hn
  exact h name (List.of_mem_zip hmem).2

theorem isWord_nodes_planGraph [Scalar α] (requests : List Request) (p : Performance α) :
    ∀ n ∈ (planGraph (Names.empty.answers requests).2 p).value.1.nodes, IsWord n.name :=
  isWord_nameNodes (isWord_getAll requests (p.graph.map GraphNode.id))

theorem isWord_freshAll (names : Names) (raws : List String) :
    ∀ name ∈ (names.freshAll raws).1, IsWord name := by
  induction raws generalizing names with
  | nil => nofun
  | cons raw rest ih =>
    exact List.forall_mem_cons.mpr ⟨(names.isIdentifier_fresh raw).isWord, ih _⟩

theorem isWord_linkNames (names : Names) (name : String) (links : List (Nat × Template α)) :
    ∀ link ∈ linkNames names name links, IsWord link := by
  intro link hlink
  have hsymbol := List.mem_map_of_mem (f := effectSymbol) hlink
  rw [map_effectSymbol_linkNames] at hsymbol
  exact isWord_effectSymbol_iff.mp (isWord_freshAll names _ _ hsymbol)

theorem Outlet.Reaches.isWord {nodes : List NamedNode} {outlet : Outlet}
    (h : outlet.Reaches nodes) (hnodes : ∀ n ∈ nodes, Script.IsWord n.name) : outlet.IsWord := by
  cases outlet with
  | hardware => trivial
  | bus name =>
    obtain ⟨n, hn, -, rfl⟩ := h
    exact hnodes n hn

end Partitura.Script
