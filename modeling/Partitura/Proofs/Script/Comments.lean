import Mathlib.Algebra.Order.BigOperators.Group.List
import Partitura.Proofs.Number.Texts
import Partitura.Proofs.Script.FreeText

/-!
# Code and comments

A line of a script is a comment if two slashes are the first thing in it; all other lines are
code. Comments stand for themselves in a script, so that it has the code of the script without
them, unless the text of a comment goes on to lines of its own. What performances say freely
is brought onto one line first, with two exceptions: the label of a part in which nothing is
played, and the name of an effect that is skipped.
-/

namespace Partitura

open Text

/-! ## Lines of code -/

def isCommentLine (line : List Char) : Bool := ['/', '/'].isPrefixOf (line.dropWhile (· == ' '))

namespace Text.LineEnds

variable (b : LineEnds)

def codeLines (s : String) : List (List Char) := (b.lines s).filter fun line => !isCommentLine line

def spilled (s : String) : List (List Char) := (b.later s).filter fun line => !isCommentLine line

/-- A text that is no code once its first line is in a comment. -/
def Inert (s : String) : Prop := ∀ line ∈ b.later s, isCommentLine line

instance (s : String) : Decidable (b.Inert s) := inferInstanceAs (Decidable (∀ _ ∈ _, _))

variable {b}

theorem inert_iff {s : String} : b.Inert s ↔ b.spilled s = [] := by
  simp [Inert, spilled, List.filter_eq_nil_iff]

theorem inert_of_flat {s : String} (hs : Flat s) : b.Inert s := by
  rw [Inert, later_of_flat hs]
  nofun

/-- After a quote, nothing makes a line a comment, and nothing undoes it. -/
theorem isCommentLine_append_quote (line rest : List Char) :
    isCommentLine (line ++ '\'' :: rest) = isCommentLine line := by
  unfold isCommentLine
  rw [List.dropWhile_append]
  rcases line.dropWhile (· == ' ') with _ | ⟨x, _ | ⟨y, others⟩⟩
  · rfl
  · simp [List.isPrefixOf]
  · simp [List.isPrefixOf]

theorem inert_quoted_iff {pre post : String} (s : String) (hpre : Flat pre) (hpost : Flat post)
    (hquote : post.toList.head? = some '\'') : b.Inert (pre ++ s ++ post) ↔ b.Inert s := by
  obtain ⟨before, last, hs, hall⟩ := exists_lines_append (b := b) s hpost
  obtain ⟨rest, hrest⟩ : ∃ rest, post.toList = '\'' :: rest := List.head?_eq_some_iff.mp hquote
  rw [Inert, String.append_assoc, later_append_of_unbroken (breaks_of_flat hpre), later, hall,
    Inert, later, hs, hrest]
  cases before with
  | nil => rfl
  | cons first others =>
    rw [List.cons_append, List.cons_append, List.tail_cons, List.tail_cons,
      List.forall_mem_append, List.forall_mem_append, List.forall_mem_singleton,
      List.forall_mem_singleton, isCommentLine_append_quote]

theorem toList_indentation (depth : Nat) :
    (String.join (List.replicate depth Script.indentation)).toList =
      List.replicate (4 * depth) ' ' := by
  induction depth with
  | zero => rfl
  | succ depth ih =>
    rw [List.replicate_succ, String.join_cons, String.toList_append, ih, Nat.mul_succ,
      Nat.add_comm, List.replicate_add]
    rfl

theorem codeLines_comment (depth : Nat) (s : String) :
    b.codeLines (String.join (List.replicate depth Script.indentation) ++ ("// " ++ s)) =
      b.spilled s := by
  have hchars : (String.join (List.replicate depth Script.indentation) ++ "// ").toList =
      List.replicate (4 * depth) ' ' ++ ['/', '/', ' '] := by
    rw [String.toList_append, toList_indentation]
    rfl
  have hflat : Flat (String.join (List.replicate depth Script.indentation) ++ "// ") := by
    refine Flat.append (flat_join fun t ht => ?_) (by decide)
    rw [(List.mem_replicate.mp ht).2]
    decide
  obtain ⟨first, later, hlines⟩ := List.exists_cons_of_ne_nil (lines_ne_nil (b := b) s)
  have hfirst : isCommentLine (List.replicate (4 * depth) ' ' ++ ['/', '/', ' '] ++ first) := by
    unfold isCommentLine
    rw [List.append_assoc, List.dropWhile_append_of_pos fun c hc => by
      rw [(List.mem_replicate.mp hc).2]
      rfl]
    rfl
  rw [← String.append_assoc, codeLines, lines_append_of_unbroken (breaks_of_flat hflat), hchars,
    hlines, List.modifyHead_cons, List.filter_cons_of_neg, spilled, Text.LineEnds.later,
    hlines, List.tail_cons]
  rw [hfirst]
  exact Bool.false_ne_true

end Text.LineEnds

/-! ## Laid out lines -/

namespace Script

def laidText (depth : Nat) (text : String) : String :=
  if text = "" then "" else String.join (List.replicate depth indentation) ++ text

def laidTexts : Nat → List Line → List String
  | _, [] => []
  | depth, .plain text :: rest => laidText depth text :: laidTexts depth rest
  | depth, .opening text :: rest => laidText depth text :: laidTexts (depth + 1) rest
  | depth, .closing text :: rest => laidText (depth - 1) text :: laidTexts (depth - 1) rest

def depthAfter : Nat → List Line → Nat
  | depth, [] => depth
  | depth, .plain _ :: rest => depthAfter depth rest
  | depth, .opening _ :: rest => depthAfter (depth + 1) rest
  | depth, .closing _ :: rest => depthAfter (depth - 1) rest

theorem layout_eq (depth : Nat) (lines : List Line) :
    layout depth lines = String.join ((laidTexts depth lines).map (· ++ "\n")) := by
  have hindented (depth : Nat) (text : String) :
      indented depth text = laidText depth text ++ "\n" := by
    unfold indented laidText
    split <;> rfl
  induction lines generalizing depth with
  | nil => rfl
  | cons line rest ih => cases line <;> simp only [layout, laidTexts, List.map_cons,
      String.join_cons, hindented, ih]

theorem laidTexts_append (depth : Nat) (xs ys : List Line) :
    laidTexts depth (xs ++ ys) = laidTexts depth xs ++ laidTexts (depthAfter depth xs) ys := by
  induction xs generalizing depth with
  | nil => rfl
  | cons line rest ih => cases line <;> simp only [List.cons_append, laidTexts, depthAfter, ih]

section Code

variable (b : LineEnds)

def codeOf (depth : Nat) (lines : List Line) : List (List Char) :=
  (laidTexts depth lines).flatMap b.codeLines

variable {b}

theorem codeLines_layout (depth : Nat) (lines : List Line) :
    b.codeLines (layout depth lines) = codeOf b depth lines ++ [[]] := by
  rw [LineEnds.codeLines, layout_eq, LineEnds.lines_joined, List.filter_append,
    List.filter_flatMap]
  rfl

theorem codeOf_append (depth : Nat) (xs ys : List Line) :
    codeOf b depth (xs ++ ys) = codeOf b depth xs ++ codeOf b (depthAfter depth xs) ys := by
  rw [codeOf, laidTexts_append, List.flatMap_append]
  rfl

theorem codeOf_comment (depth : Nat) (text : String) (rest : List Line) :
    codeOf b depth (.comment text :: rest) = b.spilled text ++ codeOf b depth rest := by
  have hne : "// " ++ text ≠ "" := fun h => by simp [← String.toList_inj] at h
  have hlaid : laidText depth ("// " ++ text) =
      String.join (List.replicate depth indentation) ++ ("// " ++ text) := if_neg hne
  rw [codeOf, Line.comment, laidTexts, List.flatMap_cons, hlaid, LineEnds.codeLines_comment]
  rfl

theorem codeOf_folded (depth : Nat) (texts : List String) (rest : List Line) :
    codeOf b depth (texts.map Line.folded ++ rest) = codeOf b depth rest := by
  induction texts with
  | nil => rfl
  | cons text texts ih =>
    have hinert := LineEnds.inert_iff.mp (LineEnds.inert_of_flat (b := b) (flat_oneLine text))
    rw [List.map_cons, List.cons_append, Line.folded, codeOf_comment, hinert, ih,
      List.nil_append]

end Code

/-! ## Comments of scripts -/

variable {α : Type}

def Statement.comment? : Statement α → Option String
  | comment text => some text
  | _ => none

def comments (statements : List (Statement α)) : List String :=
  statements.filterMap Statement.comment?

def uncommented (statements : List (Statement α)) : List (Statement α) :=
  statements.filter fun st => st.comment?.isNone

theorem eq_comment {st : Statement α} {text : String} (h : st.comment? = some text) :
    st = .comment text := by
  cases st <;> cases h
  rfl

theorem hushed_of_code {st : Statement α} (h : st.comment? = none) : st.hushed = st := by
  cases st <;> first | rfl | cases h

theorem uncommented_cons {st : Statement α} (h : st.comment? = none)
    (rest : List (Statement α)) : uncommented (st :: rest) = st :: uncommented rest :=
  List.filter_cons_of_pos (by rw [h]; rfl)

theorem comments_cons {st : Statement α} (h : st.comment? = none)
    (rest : List (Statement α)) : comments (st :: rest) = comments rest :=
  List.filterMap_cons_none h

theorem uncommented_hushed (statements : List (Statement α)) :
    uncommented (statements.map Statement.hushed) = uncommented statements := by
  induction statements with
  | nil => rfl
  | cons st rest ih =>
    cases hst : st.comment? with
    | some text =>
      rw [eq_comment hst]
      exact ih
    | none =>
      rw [List.map_cons, hushed_of_code hst, uncommented_cons hst, uncommented_cons hst, ih]

variable [Scalar α]

theorem exceeds_statements {b : LineEnds} (server : String) (depth : Nat)
    (statements : List (Statement α)) (rest : List Line) :
    Exceeds (codeOf b depth (statements.flatMap (Statement.lines server) ++ rest))
      (codeOf b depth ((uncommented statements).flatMap (Statement.lines server) ++ rest))
      ((comments statements).map fun text => (b.spilled text).length).sum := by
  induction statements generalizing depth with
  | nil => exact Exceeds.refl _
  | cons st later ih =>
    cases hst : st.comment? with
    | some text =>
      rw [eq_comment hst]
      have hspilled : Exceeds (b.spilled text) [] (b.spilled text).length :=
        ⟨by simp, fun hnone => List.length_eq_zero_iff.mp hnone⟩
      have hlines := codeOf_comment (b := b) depth text
        (later.flatMap (Statement.lines server) ++ rest)
      exact hlines ▸ hspilled.append (ih depth)
    | none =>
      rw [comments_cons hst, uncommented_cons hst, List.flatMap_cons, List.flatMap_cons,
        List.append_assoc, List.append_assoc, codeOf_append _ (st.lines server),
        codeOf_append _ (st.lines server), ← Nat.zero_add (List.sum _)]
      exact (Exceeds.refl _).append (ih _)

end Script

def Script.withoutComments {α : Type} (s : Script α) : Script α :=
  { s with header := [], body := Script.uncommented s.body }

namespace Script

variable {α : Type}

/-! ## Comments that are code -/

def Statement.Inert (b : LineEnds) (st : Statement α) : Prop :=
  ∀ text, st.comment? = some text → b.Inert text

variable {b : LineEnds}

theorem inert_of_code {st : Statement α} (h : st.comment? = none) : st.Inert b := by
  intro text htext
  rw [h] at htext
  cases htext

theorem inert_comment_iff (text : String) :
    (Statement.comment (α := α) text).Inert b ↔ b.Inert text :=
  ⟨fun h => h text rfl, fun h _ htext => Option.some.inj htext ▸ h⟩

theorem inert_titled_iff {s : String} (htitle : Flat s) (statements : List (Statement α)) :
    (∀ st ∈ titled s statements, st.Inert b) ↔ ∀ st ∈ statements, st.Inert b := by
  unfold titled
  split
  · next hnone => rw [List.isEmpty_iff.mp hnone]
  · rw [List.forall_mem_append, List.forall_mem_cons, List.forall_mem_singleton,
      inert_comment_iff]
    have hblank : (Statement.blank (α := α)).Inert b := inert_of_code rfl
    simp [hblank, LineEnds.inert_of_flat htitle]

theorem inert_definitionStatements (bpm : α) (definitions : List (Definition α)) :
    ∀ st ∈ definitionStatements bpm definitions, st.Inert b := by
  have hsection (title : String) (htitle : Flat title) (purpose : Purpose) :
      ∀ st ∈ definitionSection title purpose definitions, st.Inert b := by
    rw [definitionSection, inert_titled_iff htitle, List.forall_mem_map]
    exact fun d _ => inert_of_code rfl
  have hends : ∀ st ∈ ([.blank, .sync] : List (Statement α)), st.Inert b := by
    rw [List.forall_mem_cons, List.forall_mem_singleton]
    exact ⟨inert_of_code rfl, inert_of_code rfl⟩
  rw [definitionStatements, List.forall_mem_append, List.forall_mem_append,
    List.forall_mem_append, List.forall_mem_cons]
  exact ⟨⟨⟨⟨inert_of_code rfl, hsection _ (by decide) _⟩, hsection _ (by decide) _⟩,
    hsection _ (by decide) _⟩, hends⟩

theorem inert_graph {graph : GraphPlan α} (hgraph : graph.Sound) :
    (∀ st ∈ graph.buses, st.Inert b) ∧ (∀ st ∈ graph.effects, st.Inert b) ∧
      ∀ st ∈ graph.modulators, st.Inert b := by
  refine ⟨?_, ?_, ?_⟩
  · rw [hgraph.buses, List.forall_mem_map]
    exact fun n _ => inert_of_code rfl
  · intro st hst
    rw [hgraph.effects] at hst
    obtain ⟨name, outlet, -, -, rfl⟩ := mem_effectSynths hgraph.destinations hst
    exact inert_of_code rfl
  · obtain ⟨maps, hmodulators, hmaps⟩ := hgraph.modulators
    rw [hmodulators, List.forall_mem_append, List.forall_mem_flatMap]
    refine ⟨fun n _ st hst => ?_, fun st hst => ?_⟩
    · unfold modulatorStatements at hst
      split at hst
      · rcases List.mem_cons.mp hst with rfl | hst
        · exact inert_of_code rfl
        · rw [List.mem_singleton.mp hst]
          exact inert_of_code rfl
      · cases hst
    · obtain ⟨_, _, _, _, -, -, -, rfl⟩ := hmaps st hst
      exact inert_of_code rfl

def PartPlan.Inert (b : LineEnds) (plan : PartPlan α) : Prop :=
  (∀ st ∈ plan.effects, st.Inert b) ∧ ∀ st ∈ plan.statements, st.Inert b

theorem inert_assemble_iff {graph : GraphPlan α} (hgraph : graph.Sound)
    {parts : List (PartPlan α)} (hparts : AllSetUp graph parts)
    {timeline : List (Statement α)} (htimeline : ∀ st ∈ timeline, st.Inert b) (bpm grid : α) :
    (∀ st ∈ assemble bpm grid graph parts timeline, st.Inert b) ↔
      ∀ plan ∈ parts, plan.Inert b := by
  obtain ⟨hgraphBuses, hgraphEffects, hmodulators⟩ := inert_graph (b := b) hgraph
  have hbuses : ∀ plan ∈ parts, ∀ st ∈ plan.buses, st.Inert b := by
    intro plan hplan
    obtain ⟨own, links, outlet, hsetUp⟩ := hparts plan hplan
    rw [hsetUp.buses, List.forall_mem_map]
    exact fun name _ => inert_of_code rfl
  have hplay : ∀ st ∈ playStatements parts grid, st.Inert b := by
    rw [playStatements, List.forall_mem_map]
    exact fun plan _ => inert_of_code rfl
  have hblank : (Statement.blank (α := α)).Inert b := inert_of_code rfl
  have hpatterns : (Statement.comment (α := α) "Patterns").Inert b :=
    (inert_comment_iff _).mpr (LineEnds.inert_of_flat (by decide))
  rw [assemble_eq]
  simp only [List.forall_mem_append, List.forall_mem_cons, List.forall_mem_flatMap,
    inert_titled_iff (s := "Routing") (by decide),
    inert_titled_iff (s := "Timeline") (by decide),
    inert_titled_iff (s := "Play") (by decide), routingStatements, PartPlan.Inert]
  constructor
  · rintro ⟨-, ⟨⟨⟨-, heffects⟩, -⟩, -⟩, -, hstatements, -⟩ plan hplan
    exact ⟨heffects plan hplan, hstatements plan hplan⟩
  · intro h
    refine ⟨inert_definitionStatements bpm _, ⟨⟨⟨⟨hgraphBuses, hbuses⟩, ?_⟩, hgraphEffects⟩,
      hmodulators⟩, ⟨hblank, hpatterns, List.forall_mem_nil _⟩, ?_, htimeline, hplay⟩
    · exact fun plan hplan => (h plan hplan).1
    · exact fun plan hplan => (h plan hplan).2

variable [Scalar α]

theorem exceeds_text {b : LineEnds} (s : Script α) :
    Exceeds (b.codeLines s.text) (b.codeLines s.withoutComments.text)
      ((comments s.body).map fun text => (b.spilled text).length).sum := by
  have hlines (s : Script α) : b.codeLines s.text =
      codeOf b 0 [.empty, .plain "(", .opening (s.server ++ ".waitForBoot \x7b")]
        ++ codeOf b 1 (s.body.flatMap (Statement.lines s.server)
          ++ [.closing "\x7d;", .plain ")"]) ++ [[]] := by
    rw [text, codeLines_layout, lines, List.append_assoc, List.append_assoc, codeOf_folded,
      List.append_assoc, codeOf_append, List.append_assoc]
    rfl
  rw [hlines, hlines, ← Nat.zero_add (List.sum _)]
  exact ((Exceeds.refl _).append (exceeds_statements _ _ _ _)).append (Exceeds.refl _)

theorem codeLines_eq_iff (s : Script α) :
    b.codeLines s.text = b.codeLines s.withoutComments.text ↔ ∀ st ∈ s.body, st.Inert b := by
  rw [(exceeds_text s).eq_iff, List.sum_eq_zero_iff]
  simp only [comments, List.forall_mem_map, List.length_eq_zero_iff, ← LineEnds.inert_iff,
    List.mem_filterMap, forall_exists_index, and_imp, Statement.Inert]
  exact ⟨fun h st hst text htext => h text st hst htext,
    fun h text st hst htext => h st hst text htext⟩

section Timeline

theorem flat_dropZeros {s : String} (hs : Flat s) : Flat (dropZeros s) := by
  refine Number.flat_of_subset hs fun c hc => ?_
  have hleft := (List.dropWhile_sublist _).subset (List.mem_reverse.mp hc)
  exact List.mem_reverse.mp ((List.dropWhile_sublist _).subset hleft)

variable [FlatNumbers α]

theorem flat_numberText (x : α) : Flat (numberText x) := by
  unfold numberText decimalText
  dsimp only
  split
  · split
    · decide
    · exact flat_dropZeros (FlatNumbers.flat_fixedText 4 x)
  · decide

theorem inert_timeline (p : Performance α) (graph : GraphPlan α) (parts : List (PartPlan α))
    (grid : α) : ∀ st ∈ (timeline p graph parts grid).value, st.Inert b := by
  rw [value_timeline, List.forall_mem_append, List.forall_mem_map]
  constructor
  · intro r _
    refine (inert_comment_iff _).mpr (LineEnds.inert_of_flat ?_)
    have hkind : Flat r.kind.name := by cases r.kind <;> decide
    exact ((((Flat.append (by decide) (flat_numberText _)).append (by decide)).append
      hkind).append (by decide)).append (flat_oneLine r.text)
  · split
    · nofun
    · rw [List.forall_mem_cons, List.forall_mem_map]
      exact ⟨inert_of_code rfl, fun e _ => inert_of_code rfl⟩

end Timeline

/-! ## Raw texts -/

/-- The names of the effects that a chain skips: of those before an effect of the graph, the
ones that no template fits. -/
def skippedKinds (nodes : List NamedNode) (devices : List (PlacedDevice α)) : List String :=
  ((devices.takeWhile fun d => (d.node.bind (effectBus? nodes)).isNone).filter fun d =>
    (effectTemplate? d.kind d.options).isNone).map fun d => d.kind.text

def isSilent (tempo : TempoMap α) (part : PlayedPart α) : Bool :=
  (steps tempo "" part).value.isEmpty

/-- The texts of a part that stand in comments as they are. -/
def rawTextsOf (nodes : List NamedNode) (tempo : TempoMap α) (part : PlayedPart α) :
    List String :=
  skippedKinds nodes part.effects ++ if isSilent tempo part then [part.label] else []

theorem skipped_chainOf (graph : GraphPlan α) (path : String)
    (devices : List (PlacedDevice α × Nat)) :
    (chainOf graph path devices).value.skipped =
      skippedKinds graph.nodes (devices.map Prod.fst) := by
  induction devices with
  | nil => rfl
  | cons first rest ih =>
    obtain ⟨d, j⟩ := first
    rw [List.map_cons, skippedKinds, List.takeWhile_cons]
    rcases chainOf_cases graph path d j rest with
      ⟨outlet, hbus, heq⟩ | ⟨hbus, t, htemplate, heq⟩ | ⟨hbus, htemplate, heq⟩
    · rw [graphBus?] at hbus
      simp [heq, hbus]
    · rw [graphBus?] at hbus
      simp [heq, hbus, htemplate, ih, skippedKinds]
    · rw [graphBus?] at hbus
      simp [heq, hbus, htemplate, ih, skippedKinds]

theorem value_noteStep (tempo : TempoMap α) (period : Option α) (path : String)
    (n : PlayedNote α) :
    (noteStep tempo period path n).value = (noteStep tempo period "" n).value := by
  have hnumbers (path : String) (cents : α) :
      (Outcome.collect (n.pitches.map (pitchNumber path cents))).value =
        n.pitches.map fun v => (pitchNumber "" cents v).value := by
    rw [Outcome.value_collect, List.map_map]
    refine List.map_congr_left fun v _ => ?_
    unfold Function.comp pitchNumber
    cases v.midi? <;> rfl
  unfold noteStep
  cases period <;> dsimp only <;> split <;>
    simp only [Outcome.value_bind, Outcome.value_pure, hnumbers]

theorem value_steps (tempo : TempoMap α) (path : String) (part : PlayedPart α) :
    (steps tempo path part).value = (steps tempo "" part).value := by
  simp only [steps, Outcome.value_bind, Outcome.value_collectSome, Outcome.value_pure,
    List.filterMap_map, Function.comp_def, value_noteStep tempo _ path]

theorem inert_planPart_iff (p : Performance α) (graph : GraphPlan α) (names : Names) (i : Nat)
    (name : String) (part : PlayedPart α) :
    (planPart p graph names i name part).value.1.Inert b ↔
      ∀ text ∈ rawTextsOf graph.nodes p.tempo part, b.Inert text := by
  have hskipped := skipped_chainOf graph (entryPath "sequences" i) part.effects.zipIdx
  rw [List.zipIdx_map_fst] at hskipped
  have hkind (kind : String) : b.Inert
      ("effect '" ++ kind ++ "' is not supported and was skipped") ↔ b.Inert kind :=
    LineEnds.inert_quoted_iff kind (by decide) (by decide) (by decide)
  have hlabel (label : String) : b.Inert
      ("sequence '" ++ label ++ "' has no playable notes") ↔ b.Inert label :=
    LineEnds.inert_quoted_iff label (by decide) (by decide) (by decide)
  have hwire (outlet : Outlet) (links : List String) :
      ∀ st ∈ wire (α := α) outlet links, st.Inert b := by
    intro st hst
    obtain ⟨_, -, _, rfl, -⟩ := mem_wire hst
    exact inert_of_code rfl
  unfold PartPlan.Inert rawTextsOf
  rw [List.forall_mem_append]
  refine and_congr ?_ ?_
  · simp only [planPart, Outcome.value_bind, Outcome.value_pure, hskipped, List.forall_mem_append,
      List.forall_mem_map, skippedComment, inert_comment_iff, hkind]
    exact and_iff_left (hwire _ _)
  · simp only [planPart, Outcome.value_bind, Outcome.value_pure, PartPlan.statements,
      value_steps p.tempo (entryPath "sequences" i), isSilent]
    by_cases hsilent : (steps p.tempo "" part).value.isEmpty = true
    · simp only [hsilent, if_true, List.forall_mem_singleton, inert_comment_iff]
      exact hlabel part.label
    · simp only [hsilent, Bool.false_eq_true, if_false, List.forall_mem_cons]
      exact iff_of_true ⟨inert_of_code rfl, inert_of_code rfl, List.forall_mem_nil _⟩
        (List.forall_mem_nil _)

theorem inert_planParts_iff (p : Performance α) (graph : GraphPlan α) (names : Names) (i : Nat)
    (parts : List (PlayedPart α × String)) :
    (∀ plan ∈ (planParts p graph names i parts).value, plan.Inert b) ↔
      ∀ part ∈ parts.map Prod.fst, ∀ text ∈ rawTextsOf graph.nodes p.tempo part,
        b.Inert text := by
  induction parts generalizing names i with
  | nil => exact iff_of_true nofun nofun
  | cons first rest ih =>
    obtain ⟨part, name⟩ := first
    rw [planParts_cons, List.forall_mem_cons, List.map_cons, List.forall_mem_cons,
      inert_planPart_iff, ih]

end Script

/-- The texts of a performance that stand in the comments of its script as they are: the names
of effects that are skipped, and the labels of parts in which nothing is played. -/
def Performance.rawTexts {α : Type} [Scalar α] (p : Performance α) : List String :=
  p.parts.flatMap (Script.rawTextsOf (Script.graphPlan p).nodes p.tempo)

namespace Script

variable {α : Type} [Scalar α] {b : LineEnds} (settings : Settings α) {p q : Performance α}

theorem withoutComments_scriptOf (h : p.withoutTexts = q.withoutTexts) :
    (scriptOf settings p).value.withoutComments = (scriptOf settings q).value.withoutComments := by
  have hbody := congrArg uncommented (hushed_scriptOf settings h)
  rw [uncommented_hushed, uncommented_hushed] at hbody
  exact congrArg (Script.mk settings.server []) hbody

variable [FlatNumbers α]

theorem inert_scriptOf_iff : (∀ st ∈ (scriptOf settings p).value.body, st.Inert b) ↔
    ∀ text ∈ p.rawTexts, b.Inert text := by
  have hparts : (p.parts.zip (partNames p)).map Prod.fst = p.parts := by
    refine List.map_fst_zip ?_
    rw [partNames, Names.length_freshAll, List.length_map]
  rw [body_scriptOf, inert_assemble_iff (sound_graphPlan p) (setUp_partPlans p)
    (inert_timeline p _ _ _), partPlans, inert_planParts_iff, hparts, Performance.rawTexts,
    List.forall_mem_flatMap]

/-- The comments of a script are no code just if the raw texts are inert. -/
theorem codeLines_withoutComments_iff :
    b.codeLines (scriptOf settings p).value.text =
      b.codeLines (scriptOf settings p).value.withoutComments.text ↔
    ∀ text ∈ p.rawTexts, b.Inert text := by
  rw [codeLines_eq_iff, inert_scriptOf_iff]

/-- Take two performances that differ in their free texts only: in what their titles, authors,
descriptions, versions and remarks say, in labels with the same identifiers, and in the names
of devices that are not supported. Where the raw texts of one are inert, its script has just
the code of a script without comments, which the other one has as well. And the two scripts
have the same code just if the raw texts of the other one are inert, too. -/
theorem codeLines_scriptOf_iff (h : p.withoutTexts = q.withoutTexts)
    (hq : ∀ text ∈ q.rawTexts, b.Inert text) :
    b.codeLines (scriptOf settings q).value.text =
      b.codeLines (scriptOf settings p).value.withoutComments.text ∧
    (b.codeLines (scriptOf settings p).value.text = b.codeLines (scriptOf settings q).value.text ↔
      ∀ text ∈ p.rawTexts, b.Inert text) := by
  have hbare := withoutComments_scriptOf settings h
  have hcode := (codeLines_withoutComments_iff (b := b) settings).mpr hq
  refine ⟨by rw [hbare, hcode], ?_⟩
  rw [hcode, ← hbare, codeLines_withoutComments_iff]

theorem codeLines_scriptOf_iff_song :
    let song (title label kind remark : String) : Performance Rat :=
      ⟨formatName, formatVersion, 120, .common, none, .constant 120, [], [],
        ⟨some title, none, none⟩, [⟨"lead", .synth, [], none, none⟩], [⟨"lead", "master"⟩],
        [⟨label, ⟨some "lead", .synth, []⟩, [⟨none, .unknown kind, []⟩], [], .once, none⟩], [],
        [⟨remark, 0, .text⟩], []⟩
    let p := song "Two\nlines" "Lead" "shimmer\n// more" "first\nsecond"
    let q := song "One" "lead" "wah" "none"
    (p.withoutTexts = q.withoutTexts ∧
      ∀ text ∈ q.rawTexts, LineEnds.newlines.Inert text) ∧
    LineEnds.newlines.codeLines (scriptOf .standard p).value.text =
      LineEnds.newlines.codeLines (scriptOf .standard q).value.text := by
  intro song p q
  have h : p.withoutTexts = q.withoutTexts := by
    rfl
  have hq : ∀ text ∈ q.rawTexts, LineEnds.newlines.Inert text := by decide +kernel
  have hp : ∀ text ∈ p.rawTexts, LineEnds.newlines.Inert text := by decide +kernel
  exact ⟨⟨h, hq⟩, (codeLines_scriptOf_iff .standard h hq).2.mpr hp⟩

/-- A label that goes on to another line is code there, in a part where nothing is played. -/
theorem not_codeLines_song :
    let song (label : String) : Performance Rat :=
      ⟨formatName, formatVersion, 120, .common, none, .constant 120, [], [], ⟨none, none, none⟩,
        [⟨"lead", .synth, [], none, none⟩], [⟨"lead", "master"⟩],
        [⟨label, ⟨some "lead", .synth, []⟩, [], [], .once, none⟩], [], [], []⟩
    let p := song "lead\n1.postln;"
    let q := song "lead 1 postln "
    p.withoutTexts = q.withoutTexts ∧
    LineEnds.newlines.codeLines (scriptOf .standard p).value.text ≠
      LineEnds.newlines.codeLines (scriptOf .standard q).value.text := by
  intro song p q
  have h : p.withoutTexts = q.withoutTexts := by rfl
  have hq : ∀ text ∈ q.rawTexts, LineEnds.newlines.Inert text := by decide +kernel
  have hp : ¬∀ text ∈ p.rawTexts, LineEnds.newlines.Inert text := by decide +kernel
  have hcode := (codeLines_withoutComments_iff .standard).mpr hq
  rw [← withoutComments_scriptOf .standard h] at hcode
  exact ⟨h, fun heq => hp ((codeLines_withoutComments_iff .standard).mp (heq.trans hcode))⟩

end Script

end Partitura
