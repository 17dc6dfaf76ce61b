import Mathlib.Data.List.Basic
import Partitura.Script.OfPerformance

/-!
# What a script names

A statement uses definitions by their symbols and what lives on the server by variables,
and it defines some of them; both can be found in its lines. Statements are in scope of the
names known before them if each one uses only these and what the statements before it
define.
-/

namespace Partitura.Script

inductive Name where
  | symbol (s : String)
  | variable (v : Variable)
  | start
deriving DecidableEq, Repr

def Name.text : Name → String
  | symbol s => "\\" ++ s
  | .variable v => v.text
  | start => "~start"

/-- What a line begins with that gives a name its meaning. -/
def Name.opening : Name → String
  | symbol s => "SynthDef(\\" ++ s ++ ", "
  | .variable v => v.text ++ " = "
  | start => "~start = "

variable {α : Type}

def Outlet.uses : Outlet → List Name
  | hardware => []
  | bus name => [.variable (.bus name)]

def Receiver.uses : Receiver → List Name
  | everything => []
  | .variable v => [.variable v]

def Action.uses : Action α → List Name
  | tempo _ => []
  | set receivers _ _ => receivers.flatMap Receiver.uses

def Pattern.uses (p : Pattern α) : List Name :=
  .symbol p.instrument :: .variable (.group p.name) :: p.outlet.uses
    ++ p.mappings.map fun m => .variable (.modulatorBus m.2)

namespace Statement

def uses : Statement α → List Name
  | effect name outlet =>
    .symbol (effectSymbol name) :: .variable (.bus name) :: outlet.uses
  | modulator name => [.symbol (modulatorSymbol name), .variable (.modulatorBus name)]
  | map target _ source => [.variable (.effect target), .variable (.modulatorBus source)]
  | pattern p => p.uses
  | schedule _ action => .start :: action.uses
  | play name _ => [.variable (.pattern name)]
  | _ => []

def defines : Statement α → List Name
  | define d => [.symbol d.name]
  | audioBus name => [.variable (.bus name)]
  | controlBus name => [.variable (.modulatorBus name)]
  | effect name _ => [.variable (.effect name)]
  | modulator name => [.variable (.modulator name)]
  | group name => [.variable (.group name)]
  | pattern p => [.variable (.pattern p.name)]
  | start _ => [.start]
  | play name _ => [.variable (.player name)]
  | _ => []

end Statement

/-! ## Scopes -/

/-- Every statement uses only names that are known or that an earlier one defines. -/
def Scoped : List Name → List (Statement α) → Prop
  | _, [] => True
  | known, st :: rest => st.uses ⊆ known ∧ Scoped (known ++ st.defines) rest

section Scopes

variable {known known' : List Name} {xs ys : List (Statement α)}

theorem Scoped.mono (h : Scoped known xs) (hknown : known ⊆ known') : Scoped known' xs := by
  induction xs generalizing known known' with
  | nil => trivial
  | cons st rest ih =>
    obtain ⟨huses, hrest⟩ := h
    refine ⟨List.Subset.trans huses hknown, ih hrest (List.append_subset.mpr ⟨?_, ?_⟩)⟩
    · exact List.Subset.trans hknown (List.subset_append_left _ _)
    · exact List.subset_append_right _ _

theorem scoped_append : Scoped known (xs ++ ys) ↔
    Scoped known xs ∧ Scoped (known ++ xs.flatMap Statement.defines) ys := by
  induction xs generalizing known with
  | nil => simp [Scoped]
  | cons st rest ih => simp [Scoped, ih, List.flatMap_cons, and_assoc]

theorem scoped_of_uses (h : ∀ st ∈ xs, st.uses ⊆ known) : Scoped known xs := by
  induction xs generalizing known with
  | nil => trivial
  | cons st rest ih =>
    refine ⟨h st List.mem_cons_self, ih fun st' hst' => ?_⟩
    exact List.Subset.trans (h st' (List.mem_cons_of_mem _ hst')) (List.subset_append_left _ _)

theorem scoped_flatMap {β : Type} {items : List β} {f : β → List (Statement α)}
    (h : ∀ x ∈ items, Scoped known (f x)) : Scoped known (items.flatMap f) := by
  induction items with
  | nil => trivial
  | cons x rest ih =>
    rw [List.flatMap_cons, scoped_append]
    refine ⟨h x List.mem_cons_self, ?_⟩
    exact (ih fun y hy => h y (List.mem_cons_of_mem _ hy)).mono (List.subset_append_left _ _)

theorem scoped_titled (title : String) (h : Scoped known xs) :
    Scoped known (titled title xs) := by
  unfold titled
  split
  · trivial
  · exact ⟨List.nil_subset _, List.nil_subset _, by simpa [Statement.defines] using h⟩

theorem defines_titled (title : String) (xs : List (Statement α)) :
    (titled title xs).flatMap Statement.defines = xs.flatMap Statement.defines := by
  unfold titled
  split
  · next hempty => simp [List.isEmpty_iff.mp hempty]
  · simp [Statement.defines]

theorem Scoped.uses_subset {st : Statement α} (h : Scoped known (xs ++ st :: ys)) :
    st.uses ⊆ known ++ xs.flatMap Statement.defines := (scoped_append.mp h).2.1

end Scopes

/-! ## Lines -/

namespace Line

def text : Line → String
  | plain s => s
  | opening s => s
  | closing s => s

def Defines (l : Line) (n : Name) : Prop := n.opening.toList <+: l.text.toList

def Mentions (l : Line) (n : Name) : Prop := ∃ before after, l.text = before ++ n.text ++ after

end Line

theorem Outlet.text_of_mem_uses {o : Outlet} {n : Name} (h : n ∈ o.uses) : o.text = n.text := by
  cases o with
  | hardware => cases h
  | bus name =>
    obtain rfl := List.mem_singleton.mp h
    rfl

theorem exists_intercalate (separator : String) {entry : String} {entries : List String}
    (h : entry ∈ entries) :
    ∃ before after, separator.intercalate entries = before ++ entry ++ after := by
  induction entries with
  | nil => cases h
  | cons first rest ih =>
    cases rest with
    | nil =>
      obtain rfl := List.mem_singleton.mp h
      exact ⟨"", "", by simp⟩
    | cons second others =>
      rw [String.intercalate_cons_cons]
      rcases List.mem_cons.mp h with rfl | h
      · exact ⟨"", separator ++ separator.intercalate (second :: others),
          by simp [String.append_assoc]⟩
      · obtain ⟨before, after, hrest⟩ := ih h
        exact ⟨first ++ separator ++ before, after, by rw [hrest]; simp only [String.append_assoc]⟩

variable [Scalar α]

theorem Action.mentions {action : Action α} {n : Name} (server : String)
    (h : n ∈ action.uses) : ∃ before after, action.text server = before ++ n.text ++ after := by
  cases action with
  | tempo bpm => cases h
  | set receivers control value =>
    obtain ⟨r, hr, hn⟩ := List.mem_flatMap.mp h
    cases r with
    | everything => cases hn
    | «variable» v =>
      obtain rfl := List.mem_singleton.mp hn
      obtain ⟨before, after, htext⟩ := exists_intercalate "; "
        (List.mem_map_of_mem (f := fun r : Receiver =>
          r.text server ++ ".set(\\" ++ control ++ ", " ++ numberText value ++ ")") hr)
      refine ⟨before, ".set(\\" ++ control ++ ", " ++ numberText value ++ ")" ++ after, ?_⟩
      rw [Action.text, htext]
      simp only [Receiver.text, Name.text, String.append_assoc]

theorem Pattern.exists_mentions {p : Pattern α} {n : Name} (h : n ∈ p.uses) :
    ∃ l ∈ p.lines, l.Mentions n := by
  simp only [uses, List.cons_append, List.mem_cons, List.mem_append, List.mem_map] at h
  rcases h with rfl | rfl | h | ⟨m, hm, rfl⟩
  · refine ⟨.plain ("\\instrument, \\" ++ p.instrument ++ ","), by simp [lines],
      "\\instrument, ", ",", ?_⟩
    simp [Line.text, Name.text, ← String.toList_inj]
  · exact ⟨.plain ("\\group, " ++ (Variable.group p.name).text ++ ","), by simp [lines], _, _, rfl⟩
  · refine ⟨.plain ("\\out, " ++ p.outlet.text ++ ","), by simp [lines], ?_⟩
    rw [Line.Mentions, ← Outlet.text_of_mem_uses h]
    exact ⟨_, _, rfl⟩
  · refine ⟨.plain ("\\" ++ m.1 ++ ", " ++ (Variable.modulatorBus m.2).text ++ ".asMap,"), ?_,
      _, _, rfl⟩
    have hline := List.mem_map_of_mem (f := fun m : String × String =>
      Line.plain ("\\" ++ m.1 ++ ", " ++ (Variable.modulatorBus m.2).text ++ ".asMap,")) hm
    simp only [lines, List.mem_append]
    exact .inl (.inl (.inl (.inr hline)))

namespace Statement

theorem exists_defines {st : Statement α} {n : Name} (server : String) (h : n ∈ st.defines) :
    ∃ l ∈ st.lines server, l.Defines n := by
  cases st with
  | blank | comment | tempo | sync | map | schedule => cases h
  | define d | pattern p =>
    obtain rfl := List.mem_singleton.mp h
    refine ⟨_, List.mem_cons_self, ?_⟩
    simp [Line.Defines, Line.text, Name.opening]
  | audioBus name | controlBus name | group name | modulator name | effect name outlet
  | play name grid | start grid =>
    obtain rfl := List.mem_singleton.mp h
    refine ⟨_, List.mem_singleton_self _, ?_⟩
    simp [Line.Defines, Line.text, Name.opening]

theorem exists_mentions {st : Statement α} {n : Name} (server : String) (h : n ∈ st.uses) :
    ∃ l ∈ st.lines server, l.Mentions n := by
  cases st with
  | blank | comment | tempo | sync | define | audioBus | controlBus | group | start => cases h
  | effect name outlet =>
    refine ⟨_, List.mem_singleton_self _, ?_⟩
    rcases List.mem_cons.mp h with rfl | h
    · exact ⟨(Variable.effect name).text ++ " = Synth.tail(" ++ server ++ ", ",
        ", [\\in, " ++ (Variable.bus name).text ++ ", \\out, " ++ outlet.text ++ "]);",
        by simp [Line.text, Name.text, ← String.toList_inj]⟩
    · rcases List.mem_cons.mp h with rfl | h
      · exact ⟨(Variable.effect name).text ++ " = Synth.tail(" ++ server ++ ", \\"
          ++ effectSymbol name ++ ", [\\in, ", ", \\out, " ++ outlet.text ++ "]);",
          by simp [Line.text, Name.text, ← String.toList_inj]⟩
      · rw [Line.Mentions, ← Outlet.text_of_mem_uses h]
        exact ⟨_, _, rfl⟩
  | modulator name =>
    refine ⟨_, List.mem_singleton_self _, ?_⟩
    rcases List.mem_cons.mp h with rfl | h
    · exact ⟨(Variable.modulator name).text ++ " = Synth.head(" ++ server ++ ", ",
        ", [\\out, " ++ (Variable.modulatorBus name).text ++ "]);",
        by simp [Line.text, Name.text, ← String.toList_inj]⟩
    · obtain rfl := List.mem_singleton.mp h
      exact ⟨_, _, rfl⟩
  | map target control source =>
    refine ⟨_, List.mem_singleton_self _, ?_⟩
    rcases List.mem_cons.mp h with rfl | h
    · exact ⟨"", ".map(\\" ++ control ++ ", " ++ (Variable.modulatorBus source).text ++ ");",
        by simp [Line.text, Name.text, ← String.toList_inj]⟩
    · obtain rfl := List.mem_singleton.mp h
      exact ⟨_, _, rfl⟩
  | pattern p => exact Pattern.exists_mentions h
  | schedule beat action =>
    refine ⟨_, List.mem_singleton_self _, ?_⟩
    rcases List.mem_cons.mp h with rfl | h
    · exact ⟨"TempoClock.default.schedAbs(",
        " + " ++ beatsText beat ++ ", \x7b " ++ action.text server ++ "; nil \x7d);",
        by simp [Line.text, Name.text, ← String.toList_inj]⟩
    · obtain ⟨before, after, htext⟩ := Action.mentions server h
      refine ⟨"TempoClock.default.schedAbs(~start + " ++ beatsText beat ++ ", \x7b " ++ before,
        after ++ "; nil \x7d);", ?_⟩
      simp only [Line.text, htext, String.append_assoc]
  | play name grid =>
    obtain rfl := List.mem_singleton.mp h
    exact ⟨_, List.mem_singleton_self _,
      (Variable.player name).text ++ " = ",
      ".play(TempoClock.default, quant: " ++ numberText grid ++ ");",
      by simp [Line.text, Name.text, ← String.toList_inj]⟩

end Statement

end Partitura.Script
