import Mathlib.Algebra.Order.BigOperators.Group.List
import Mathlib.Data.List.Forall2
import Partitura.Number.Rational
import Partitura.Proofs.Text.Lines
import Partitura.Proofs.Tune.Stretches

/-!
# The lines of a tune

A tune has a line for every field of its header, and its voices have a line for every row
between two of their line breaks. Most texts in a tune are flat, whatever a performance says;
those of the source, the names of voices and the remarks stand as they are. A tune has just
the lines it should have if none of these goes on to another line.
-/

namespace Partitura

open Text

def Element.remarks : Element → List String
  | .note token => token.remarks
  | _ => []

def Voice.remarks (v : Voice) : List String := v.elements.flatMap Element.remarks

def Voice.rows (v : Voice) : List String :=
  (v.elements.splitOn .lineBreak).map (elementsText true)

namespace Tune

/-- The lines that are meant: those of the header, and the rows of every voice, with its
number before them where there are several. What follows the last newline is empty. -/
def meantLines (t : Tune) : List String :=
  t.header.lines ++ t.voices.flatMap (fun v =>
    (if 1 < t.voices.length then ["V:" ++ toString v.id] else []) ++ v.rows) ++ [""]

/-- The texts that are not brought onto one line. -/
def rawTexts (t : Tune) : List String :=
  t.header.source.toList ++ t.header.voiceNames.map VoiceName.name
    ++ t.voices.flatMap Voice.remarks

end Tune

/-! ## Flat texts -/

theorem flat_meter (m : Meter) : Flat m.text :=
  ((flat_toString _).append (by decide)).append (flat_toString _)

theorem flat_upper (l : Letter) : Flat l.upper.toString := by cases l <;> decide

theorem flat_notated (k : Key) : Flat k.notated := by
  unfold Key.notated
  dsimp only
  refine Flat.append (Flat.append (flat_upper k.root) ?_) ?_
  · rcases k.accidental with _ | accidental
    · decide
    · cases accidental <;> decide
  · cases k.mode <;> decide

theorem flat_replicate {c : Char} (hc : isBlank c = false) (n : Nat) :
    Flat (String.ofList (List.replicate n c)) := by
  intro d hd hblank
  rw [String.toList_ofList] at hd
  rw [(List.mem_replicate.mp hd).2, hc] at hblank
  cases hblank

theorem flat_head (h : Head) : Flat h.text := by
  refine Flat.append ?_ ?_
  · rcases h.accidental with _ | accidental
    · decide
    · cases accidental <;> decide
  · unfold octaveText
    split
    · refine Flat.append ?_ (flat_replicate rfl _)
      cases h.letter <;> decide
    · exact (flat_upper h.letter).append (flat_replicate rfl _)

theorem flat_heads (heads : List Head) : Flat (headsText heads) := by
  unfold headsText
  dsimp only
  split
  · decide
  · next h hheads =>
    obtain ⟨head, -, rfl⟩ := List.mem_map.mp (hheads ▸ List.mem_singleton_self h)
    exact flat_head head
  · refine Flat.append (Flat.append (by decide) (flat_join fun t ht => ?_)) (by decide)
    obtain ⟨head, -, rfl⟩ := List.mem_map.mp ht
    exact flat_head head

theorem flat_length (l : Length) : Flat l.text := by
  unfold Length.text
  split
  · exact ((flat_toString _).append (by decide)).append (flat_toString _)
  · split
    · split
      · decide
      · exact flat_toString _
    · split
      · exact Flat.append (by decide) (flat_toString _)
      · exact ((flat_toString _).append (by decide)).append (flat_toString _)

theorem flat_ornament (o : Ornament) : Flat o.text := by
  cases o with
  | loudness level => cases level <;> decide
  | staccato | accent | tenuto | marcato | fermata | slide | trill | emphasis => decide

theorem flat_field (f : InlineField) : Flat f.text := by
  cases f with
  | meter m => exact (Flat.append (by decide) (flat_meter m)).append (by decide)
  | key k => exact (Flat.append (by decide) (flat_notated k)).append (by decide)
  | tempo n => exact (Flat.append (by decide) (flat_toString n)).append (by decide)

/-! ## Rows -/

variable {b : LineEnds}

theorem breaks_plainQuoted (s : String) : b.breaks (plainQuoted s) = b.breaks s := by
  have hquote : b.ends '"' = false := Bool.eq_false_iff.mpr fun h => by
    cases b.blank _ h
  have hmark : b.ends '\'' = false := Bool.eq_false_iff.mpr fun h => by
    cases b.blank _ h
  unfold LineEnds.breaks plainQuoted Text.replaceChar
  rw [String.toList_ofList, List.countP_map]
  refine List.countP_congr fun c _ => ?_
  by_cases hc : c = '"'
  · simp [hc, hquote, hmark]
  · simp [hc]

theorem breaks_element {e : Element} (he : e ≠ .lineBreak) :
    b.breaks e.text = (e.remarks.map b.breaks).sum := by
  cases e with
  | note token =>
    have hremark (r : String) : b.breaks ("\"^" ++ plainQuoted r ++ "\"") = b.breaks r := by
      rw [LineEnds.breaks_append, LineEnds.breaks_append, breaks_plainQuoted,
        LineEnds.breaks_of_flat (s := "\"^") (by decide),
        LineEnds.breaks_of_flat (s := "\"") (by decide)]
      omega
    have hornaments : Flat (String.join (token.ornaments.map Ornament.text)) :=
      flat_join fun t ht => by
        obtain ⟨o, -, rfl⟩ := List.mem_map.mp ht
        exact flat_ornament o
    have htie : Flat (if token.tie then "-" else "") := by split <;> decide
    simp only [Element.text, Element.remarks, Token.text, LineEnds.breaks_append,
      LineEnds.breaks_of_flat hornaments, LineEnds.breaks_of_flat (flat_heads _),
      LineEnds.breaks_of_flat (flat_length _), LineEnds.breaks_of_flat htie,
      LineEnds.breaks_join, List.map_map, Nat.add_zero]
    exact congrArg List.sum (List.map_congr_left fun r _ => hremark r)
  | rest length => exact LineEnds.breaks_of_flat (Flat.append (by decide) (flat_length length))
  | field f => exact LineEnds.breaks_of_flat (flat_field f)
  | barLine | finalBar => exact LineEnds.breaks_of_flat (by decide)
  | lineBreak => exact absurd rfl he

theorem elementsText_cons {e : Element} (he : e ≠ .lineBreak) (lineStart : Bool)
    (rest : List Element) : elementsText lineStart (e :: rest) =
      (if lineStart then "" else " ") ++ e.text ++ elementsText false rest := by
  cases e with
  | lineBreak => exact absurd rfl he
  | note | rest | field | barLine | finalBar => rfl

theorem splitOn_cons_of_ne {e : Element} (he : e ≠ .lineBreak) (rest : List Element) :
    (e :: rest).splitOn .lineBreak = (rest.splitOn .lineBreak).modifyHead (e :: ·) := by
  rw [List.splitOn_cons_eq_if_modifyHead, if_neg (by simpa using he)]

def rowLines (lineStart : Bool) : List (List Element) → List (List Char)
  | [] => []
  | first :: others =>
    (elementsText lineStart first).toList :: others.map fun row => (elementsText true row).toList

theorem breaks_elementsText (lineStart : Bool) (es : List Element) :
    b.breaks (elementsText lineStart es) =
      es.count .lineBreak + ((es.flatMap Element.remarks).map b.breaks).sum := by
  induction es generalizing lineStart with
  | nil => rfl
  | cons e rest ih =>
    by_cases he : e = .lineBreak
    · subst he
      have hbreak : b.breaks "\n" = 1 := by simp [LineEnds.breaks, b.newline]
      rw [elementsText, LineEnds.breaks_append, hbreak, ih, List.count_cons_self,
        List.flatMap_cons]
      simp only [Element.remarks, List.nil_append]
      omega
    · have hsep : Flat (if lineStart then "" else " ") := by split <;> decide
      rw [elementsText_cons he, LineEnds.breaks_append, LineEnds.breaks_append,
        LineEnds.breaks_of_flat hsep, breaks_element he, ih, List.count_cons_of_ne he,
        List.flatMap_cons, List.map_append, List.sum_append]
      omega

theorem lines_elementsText {es : List Element}
    (h : ((es.flatMap Element.remarks).map b.breaks).sum = 0) (lineStart : Bool) :
    b.lines (elementsText lineStart es) = rowLines lineStart (es.splitOn .lineBreak) := by
  induction es generalizing lineStart with
  | nil => rfl
  | cons e rest ih =>
    rw [List.flatMap_cons, List.map_append, List.sum_append] at h
    have hrest := ih (by omega)
    obtain ⟨first, others, hrows⟩ :=
      List.exists_cons_of_ne_nil (List.splitOn_ne_nil Element.lineBreak rest)
    rw [hrows] at hrest
    by_cases he : e = .lineBreak
    · subst he
      rw [elementsText, LineEnds.lines_newline_append, hrest, List.splitOn_cons_eq_if_modifyHead,
        if_pos (beq_self_eq_true _), hrows]
      rfl
    · have hsep : b.breaks (if lineStart then "" else " ") = 0 :=
        LineEnds.breaks_of_flat (by split <;> decide)
      have hbefore : b.breaks ((if lineStart then "" else " ") ++ e.text) = 0 := by
        rw [LineEnds.breaks_append, hsep, breaks_element he]
        omega
      rw [elementsText_cons he, LineEnds.lines_append_of_unbroken hbefore, hrest,
        splitOn_cons_of_ne he, hrows]
      simp [rowLines, elementsText_cons he]

theorem exceeds_voice (v : Voice) : Exceeds (b.lines v.text) (v.rows.map String.toList)
    (v.remarks.map b.breaks).sum := by
  refine ⟨?_, fun hnone => ?_⟩
  · rw [LineEnds.length_lines, Voice.text, breaks_elementsText, List.length_map, Voice.rows,
      List.length_map, List.splitOn_eq_splitOnP, length_splitOnP, Voice.remarks, List.count]
    omega
  · rw [Voice.text, lines_elementsText hnone, Voice.rows]
    obtain ⟨first, others, hrows⟩ :=
      List.exists_cons_of_ne_nil (List.splitOn_ne_nil Element.lineBreak v.elements)
    rw [hrows]
    simp [rowLines]

/-! ## Headers -/

def headerFields {α : Type} (settings : TuneSettings) (p : Performance α) : List String :=
  ["X:", "T:"] ++ (p.metadata.author.map fun _ => "C:").toList
    ++ (p.metadata.description.map fun _ => "N:").toList
    ++ (settings.source.map fun _ => "S:").toList ++ ["M:", "L:", "Q:"]
    ++ (if 1 < p.parts.length then
      "%%score " :: p.parts.zipIdx.map fun (_, i) => "V:" ++ toString (i + 1) ++ " name="
      else [])
    ++ ["K:"]

def HasField (field line : String) : Prop := Text.startsWith line field

theorem hasField_append {field start : String} (h : HasField field start) (s : String) :
    HasField field (start ++ s) := by
  unfold HasField Text.startsWith at h ⊢
  rw [String.toList_append, List.isPrefixOf_iff_prefix]
  exact (List.isPrefixOf_iff_prefix.mp h).trans (List.prefix_append _ _)

theorem hasField_self (s : String) : HasField s s := List.isPrefixOf_iff_prefix.mpr List.prefix_rfl

theorem fields_optional (field : String) (s : Option String) (f : String → String) :
    List.Forall₂ HasField (s.map fun _ => field).toList ((s.map f).map (field ++ ·)).toList := by
  cases s with
  | none => exact .nil
  | some s => exact .cons (hasField_append (hasField_self field) _) .nil

theorem fields_voices {α : Type} (parts : List (PlayedPart α)) :
    List.Forall₂ HasField
      (if 1 < parts.length then
        "%%score " :: parts.zipIdx.map fun (_, i) => "V:" ++ toString (i + 1) ++ " name="
        else [])
      (voiceLines (if 1 < parts.length then parts.zipIdx.map fun (part, i) =>
        VoiceName.mk (i + 1) part.label else [])) := by
  have hnames : List.Forall₂ HasField
      (parts.zipIdx.map fun (_, i) => "V:" ++ toString (i + 1) ++ " name=")
      ((parts.zipIdx.map fun (part, i) => VoiceName.mk (i + 1) part.label).map
        VoiceName.line) := by
    rw [List.map_map, List.forall₂_map_left_iff, List.forall₂_map_right_iff, List.forall₂_same]
    rintro ⟨part, i⟩ -
    have hline : (VoiceName.mk (i + 1) part.label).line =
        "V:" ++ toString (i + 1) ++ " name=" ++ ("\"" ++ plainQuoted part.label ++ "\"") := by
      simp [VoiceName.line, ← String.toList_inj]
    show HasField _ (VoiceName.mk (i + 1) part.label).line
    rw [hline]
    exact hasField_append (hasField_self _) _
  unfold voiceLines
  split
  · next hseveral =>
    have hne : (parts.zipIdx.map fun (part, i) =>
        VoiceName.mk (i + 1) part.label).isEmpty = false := by
      cases hparts : parts with
      | nil =>
        rw [hparts] at hseveral
        simp at hseveral
      | cons => rfl
    rw [hne, if_neg Bool.false_ne_true]
    exact .cons (hasField_append (hasField_self _) _) hnames
  · exact .nil

theorem fields_tuneHeader {α : Type} [Scalar α] (settings : TuneSettings) (p : Performance α) :
    List.Forall₂ HasField (headerFields settings p) (tuneHeader settings p).lines := by
  have happend {xs ys xs' ys' : List String} (h : List.Forall₂ HasField xs ys)
      (h' : List.Forall₂ HasField xs' ys') : List.Forall₂ HasField (xs ++ xs') (ys ++ ys') :=
    List.rel_append h h'
  have hfirst : List.Forall₂ HasField ["X:", "T:"]
      ["X:" ++ toString (tuneHeader settings p).reference,
        "T:" ++ (tuneHeader settings p).title] :=
    .cons (hasField_append (hasField_self _) _) (.cons (hasField_append (hasField_self _) _) .nil)
  have hsource : List.Forall₂ HasField (settings.source.map fun _ => "S:").toList
      (settings.source.map ("S:" ++ ·)).toList := by
    simpa using fields_optional "S:" settings.source id
  have hmeasure : List.Forall₂ HasField ["M:", "L:", "Q:"]
      ["M:" ++ p.meter.text, "L:1/4", "Q:1/4=" ++ toString (tuneHeader settings p).tempo] := by
    have hlength : HasField "L:" "L:1/4" := hasField_append (hasField_self "L:") "1/4"
    have htempo : HasField "Q:" "Q:1/4=" := hasField_append (hasField_self "Q:") "1/4="
    exact .cons (hasField_append (hasField_self _) _)
      (.cons hlength (.cons (hasField_append htempo _) .nil))
  have hkey : List.Forall₂ HasField ["K:"] ["K:" ++ (tuneHeader settings p).key.notated] :=
    .cons (hasField_append (hasField_self _) _) .nil
  have hauthor := fields_optional "C:" p.metadata.author Text.oneLine
  have hdescription := fields_optional "N:" p.metadata.description Text.oneLine
  exact happend (happend (happend (happend (happend (happend hfirst hauthor) hdescription)
    hsource) hmeasure) (fields_voices p.parts)) hkey

theorem breaks_optional {f : String} (hfield : Flat f) (s : Option String) :
    ((s.map (f ++ ·)).toList.map b.breaks).sum = (s.toList.map b.breaks).sum := by
  cases s with
  | none => rfl
  | some s => simp [LineEnds.breaks_append, LineEnds.breaks_of_flat hfield]

theorem breaks_voiceName (v : VoiceName) : b.breaks v.line = b.breaks v.name := by
  have hid : Flat ("V:" ++ toString v.id ++ " name=\"") :=
    (Flat.append (by decide) (flat_toString _)).append (by decide)
  rw [VoiceName.line, LineEnds.breaks_append, LineEnds.breaks_append, breaks_plainQuoted,
    LineEnds.breaks_of_flat hid, LineEnds.breaks_of_flat (s := "\"") (by decide)]
  omega

theorem breaks_voiceLines (names : List VoiceName) :
    ((voiceLines names).map b.breaks).sum = ((names.map VoiceName.name).map b.breaks).sum := by
  have hnames : (names.map VoiceName.line).map b.breaks =
      (names.map VoiceName.name).map b.breaks := by
    rw [List.map_map, List.map_map]
    exact List.map_congr_left fun v _ => breaks_voiceName v
  unfold voiceLines
  split
  · next hnone =>
    rw [List.isEmpty_iff.mp hnone]
    rfl
  · have hscore : Flat ("%%score " ++ " ".intercalate (names.map fun v => toString v.id)) := by
      refine Flat.append (by decide) (flat_intercalate (by decide) fun t ht => ?_)
      obtain ⟨v, -, rfl⟩ := List.mem_map.mp ht
      exact flat_toString v.id
    rw [List.map_cons, List.sum_cons, LineEnds.breaks_of_flat hscore, hnames, Nat.zero_add]

/-- Only the source and the names of voices can break a line of a header. -/
theorem breaks_header {h : Header} (htitle : Flat h.title) (hcomposer : ∀ s ∈ h.composer, Flat s)
    (hnotes : ∀ s ∈ h.notes, Flat s) :
    (h.lines.map b.breaks).sum =
      ((h.source.toList ++ h.voiceNames.map VoiceName.name).map b.breaks).sum := by
  have hflat {s : Option String} (hs : ∀ t ∈ s, Flat t) : (s.toList.map b.breaks).sum = 0 := by
    cases s with
    | none => rfl
    | some t => simp [LineEnds.breaks_of_flat (hs t rfl)]
  have hnumbered {f : String} (hfield : Flat f) (n : Nat) :
      b.breaks (f ++ toString n) = 0 :=
    LineEnds.breaks_of_flat (hfield.append (flat_toString n))
  have htitled := LineEnds.breaks_of_flat (b := b) (Flat.append (s := "T:") (by decide) htitle)
  have hmeter := LineEnds.breaks_of_flat (b := b)
    (Flat.append (s := "M:") (by decide) (flat_meter h.meter))
  have hkey := LineEnds.breaks_of_flat (b := b)
    (Flat.append (s := "K:") (by decide) (flat_notated h.key))
  simp only [Header.lines, List.map_append, List.sum_append, List.map_cons, List.map_nil,
    List.sum_cons, List.sum_nil, htitled, hmeter, hkey,
    breaks_optional (f := "C:") (by decide), breaks_optional (f := "N:") (by decide),
    breaks_optional (f := "S:") (by decide), hflat hcomposer, hflat hnotes,
    breaks_voiceLines, hnumbered (f := "X:") (by decide),
    hnumbered (f := "Q:1/4=") (by decide), LineEnds.breaks_of_flat (s := "L:1/4") (by decide)]
  omega

/-! ## Remarks -/

section Remarks

variable {α : Type}

def VoiceState.pending (s : VoiceState α) : List String := s.cues.remarks.map Prod.snd

def BringsIn (s : VoiceState α) (written : List Element × VoiceState α) : Prop :=
  written.1.flatMap Element.remarks ++ written.2.pending = s.pending

theorem BringsIn.append {s s' s'' : VoiceState α} {xs ys : List Element}
    (h : BringsIn s (xs, s')) (h' : BringsIn s' (ys, s'')) : BringsIn s (xs ++ ys, s'') := by
  unfold BringsIn at h h' ⊢
  rw [List.flatMap_append, List.append_assoc, h', h]

theorem bringsIn_nothing {s s' : VoiceState α} {es : List Element}
    (hes : es.flatMap Element.remarks = []) (hs : s'.pending = s.pending) :
    BringsIn s (es, s') := by
  unfold BringsIn
  rw [hes, List.nil_append, hs]

variable [Scalar α]

theorem bringsIn_slotToken (bar : Bar α) (place : α) (slot : Slot α) (s : VoiceState α) :
    BringsIn s ([.note (slotToken bar place slot s).1], (slotToken bar place slot s).2) := by
  unfold BringsIn slotToken
  dsimp only
  split
  · simp only [openSlot, Element.remarks, VoiceState.pending, List.flatMap_singleton]
    rw [← List.map_append, List.takeWhile_append_dropWhile]
  · rfl

theorem bringsIn_writeStretch (bar : Bar α) (st : Stretch α) (s : VoiceState α) :
    BringsIn s (writeStretch bar st s) := by
  have htempos : BringsIn s (takeTempos st.start s) := by
    refine bringsIn_nothing ?_ rfl
    rw [List.flatMap_map]
    exact List.flatMap_eq_nil_iff.mpr fun _ _ => rfl
  unfold writeStretch
  dsimp only
  split
  · exact htempos.append (bringsIn_nothing rfl rfl)
  · exact htempos.append (bringsIn_slotToken bar st.start _ _)

theorem bringsIn_writeStretches (bar : Bar α) (sts : List (Stretch α)) (s : VoiceState α) :
    BringsIn s (writeStretches bar sts s) := by
  induction sts generalizing s with
  | nil => rfl
  | cons st rest ih => exact (bringsIn_writeStretch bar st s).append (ih _)

theorem bringsIn_layBar (bar : Bar α) (s : VoiceState α) : BringsIn s (layBar bar s) := by
  rw [layBar_eq]
  have hfields : BringsIn s (barFields bar, s.enter bar) := by
    refine bringsIn_nothing ?_ rfl
    unfold barFields
    cases bar.meter <;> cases bar.key <;> rfl
  exact hfields.append (bringsIn_writeStretches bar _ (s.enter bar))

theorem bringsIn_layBars (barsPerLine number : Nat) (bars : List (Bar α)) (s : VoiceState α) :
    BringsIn s (layBars barsPerLine number bars s) := by
  induction bars generalizing number s with
  | nil => rfl
  | cons bar rest ih =>
    have hend (s : VoiceState α) : BringsIn s (barEnd barsPerLine number rest.isEmpty, s) := by
      refine bringsIn_nothing ?_ rfl
      unfold barEnd
      split
      · rfl
      · split <;> rfl
    exact ((bringsIn_layBar bar s).append (hend _)).append (ih (number + 1) _)

theorem remarks_layVoice (id : Nat) (slots : List (Slot α)) (bars : List (Bar α)) (key : Key)
    (barsPerLine : Nat) (cues : Cues α) :
    (layVoice id slots bars key barsPerLine cues).1.remarks
        ++ (layVoice id slots bars key barsPerLine cues).2.remarks.map Prod.snd =
      cues.remarks.map Prod.snd :=
  bringsIn_layBars barsPerLine 1 bars ⟨key, [], none, slots, cues⟩

end Remarks

/-! ## Tunes -/

theorem exceeds_each (texts : List String) : Exceeds (texts.flatMap b.lines)
    (texts.map String.toList) (texts.map b.breaks).sum := by
  rw [List.map_eq_flatMap]
  exact Exceeds.flatMap fun s _ => LineEnds.exceeds_lines s

theorem exceeds_voiceLines (several : Bool) (v : Voice) :
    Exceeds ((v.lines several).flatMap b.lines)
      (((if several then ["V:" ++ toString v.id] else []) ++ v.rows).map String.toList)
      (v.remarks.map b.breaks).sum := by
  have hnumber : b.breaks ("V:" ++ toString v.id) = 0 :=
    LineEnds.breaks_of_flat (Flat.append (by decide) (flat_toString v.id))
  have hnone : ((if several then ["V:" ++ toString v.id] else []).map b.breaks).sum = 0 := by
    split
    · rw [List.map_singleton, hnumber, List.sum_singleton]
    · rfl
  have hfirst := exceeds_each (b := b) (if several then ["V:" ++ toString v.id] else [])
  have hall := hfirst.append (exceeds_voice (b := b) v)
  rw [hnone, Nat.zero_add] at hall
  rw [Voice.lines, List.flatMap_append, List.map_append, List.flatMap_singleton]
  exact hall

theorem exceeds_tune {t : Tune} (hheader : (t.header.lines.map b.breaks).sum =
    ((t.header.source.toList ++ t.header.voiceNames.map VoiceName.name).map b.breaks).sum) :
    Exceeds (b.lines t.text) (t.meantLines.map String.toList)
      (t.rawTexts.map b.breaks).sum := by
  have hvoices := Exceeds.flatMap fun v (_ : v ∈ t.voices) =>
    exceeds_voiceLines (b := b) (decide (1 < t.voices.length)) v
  have hall := ((exceeds_each (b := b) t.header.lines).append hvoices).append (Exceeds.refl [[]])
  have hremarks : ((t.voices.flatMap Voice.remarks).map b.breaks).sum =
      (t.voices.map fun v => (v.remarks.map b.breaks).sum).sum := by
    rw [List.map_flatMap, List.flatMap, List.sum_flatten, List.map_map]
    rfl
  rw [hheader, ← hremarks, ← List.sum_append, ← List.map_append, Nat.add_zero] at hall
  rw [Tune.text, LineEnds.lines_joined, Tune.lines, Tune.meantLines, Tune.rawTexts,
    List.flatMap_append, List.flatMap_assoc, List.map_append, List.map_append, List.map_flatMap]
  simpa only [decide_eq_true_eq, List.map_singleton, String.toList_empty] using hall

variable {α : Type} [Scalar α]

theorem flat_of_mem_map_oneLine {s : Option String} : ∀ t ∈ s.map oneLine, Flat t := by
  intro t ht
  obtain ⟨u, -, rfl⟩ := Option.mem_map.mp ht
  exact flat_oneLine u

theorem exceeds_tuneOf (settings : TuneSettings) (p : Performance α) :
    Exceeds (b.lines (tuneOf settings p).value.text)
      ((tuneOf settings p).value.meantLines.map String.toList)
      ((tuneOf settings p).value.rawTexts.map b.breaks).sum := by
  have htitle : Flat (tuneHeader settings p).title := by
    unfold tuneHeader
    cases p.metadata.name with
    | none => exact show Flat "Untitled" by decide
    | some name => exact flat_oneLine name
  exact exceeds_tune (breaks_header htitle flat_of_mem_map_oneLine flat_of_mem_map_oneLine)

theorem remarks_tuneOf (settings : TuneSettings) (p : Performance α) :
    (tuneOf settings p).value.voices.flatMap Voice.remarks <+:
      (Cues.ofPerformance p).remarks.map Prod.snd := by
  show (layVoices p settings.barsPerLine (voiceSlots p).value).1.flatMap _ <+: _
  cases (voiceSlots p).value with
  | nil => exact List.nil_prefix
  | cons first others =>
    have hothers (bars : List (Bar α)) (key : Key) : (others.zipIdx.map fun e =>
        (layVoice (e.2 + 2) e.1 bars key settings.barsPerLine Cues.none).1).flatMap
          Voice.remarks = [] := by
      rw [List.flatMap_map]
      refine List.flatMap_eq_nil_iff.mpr fun e _ => ?_
      have hnone := remarks_layVoice (e.2 + 2) e.1 bars key settings.barsPerLine Cues.none
      exact (List.append_eq_nil_iff.mp hnone).1
    simp only [layVoices, List.flatMap_cons, hothers, List.append_nil]
    exact ⟨_, remarks_layVoice 1 first _ _ _ (Cues.ofPerformance p)⟩

theorem rawTexts_tuneOf (settings : TuneSettings) (p : Performance α) :
    (tuneOf settings p).value.rawTexts ⊆ settings.source.toList
      ++ p.parts.map PlayedPart.label ++ p.remarks.map PlayedRemark.text := by
  intro text htext
  rcases List.mem_append.mp htext with htext | htext
  · rcases List.mem_append.mp htext with hsource | hname
    · exact List.mem_append_left _ (List.mem_append_left _ hsource)
    · have hlabel : text ∈ p.parts.map PlayedPart.label := by
        change text ∈ (tuneHeader settings p).voiceNames.map VoiceName.name at hname
        unfold tuneHeader at hname
        dsimp only at hname
        split at hname
        · rw [List.map_map] at hname
          obtain ⟨⟨part, i⟩, hpart, rfl⟩ := List.mem_map.mp hname
          exact List.mem_map.mpr ⟨part, List.fst_mem_of_mem_zipIdx hpart, rfl⟩
        · cases hname
      exact List.mem_append_left _ (List.mem_append_right _ hlabel)
  · refine List.mem_append_right _ ?_
    obtain ⟨cue, hcue, rfl⟩ := List.mem_map.mp ((remarks_tuneOf settings p).subset htext)
    obtain ⟨r, hr, rfl⟩ := List.mem_map.mp (List.mem_mergeSort.mp hcue)
    exact List.mem_map.mpr ⟨r, hr, rfl⟩

/-- The header of a tune has a line for each of its fields, and a voice has a row for each of
its line breaks and one more. Wherever lines may end, the tune has these lines and no others
just if no raw text in it goes on to another line: neither the source, nor the label of a part
that names a voice, nor a remark. -/
theorem lines_tuneOf_iff (b : LineEnds) (settings : TuneSettings) (p : Performance α) :
    List.Forall₂ HasField (headerFields settings p) (tuneOf settings p).value.header.lines ∧
    (∀ v ∈ (tuneOf settings p).value.voices, v.rows.length = v.elements.count .lineBreak + 1) ∧
    (b.lines (tuneOf settings p).value.text =
        (tuneOf settings p).value.meantLines.map String.toList ↔
      ∀ text ∈ (tuneOf settings p).value.rawTexts, b.OneLine text) ∧
    (tuneOf settings p).value.rawTexts ⊆ settings.source.toList
      ++ p.parts.map PlayedPart.label ++ p.remarks.map PlayedRemark.text := by
  refine ⟨fields_tuneHeader settings p, fun v _ => ?_, ?_, rawTexts_tuneOf settings p⟩
  · rw [Voice.rows, List.length_map, List.splitOn_eq_splitOnP, length_splitOnP, List.count]
  · rw [(exceeds_tuneOf settings p).eq_iff, List.sum_eq_zero_iff]
    simp only [List.mem_map, forall_exists_index, and_imp, forall_apply_eq_imp_iff₂,
      LineEnds.oneLine_iff]

/-- A label that goes on to another line ends the header there. -/
theorem not_meantLines_song :
    let part (label : String) : PlayedPart Rat := ⟨label, ⟨none, .synth, []⟩, [], [], .once, none⟩
    let song : Performance Rat := ⟨formatName, formatVersion, 120, .common, none, .constant 120,
      [], [], ⟨none, none, none⟩, [], [], [part "lead", part "bass\nK:D"], [], [], []⟩
    LineEnds.newlines.lines (tuneOf .standard song).value.text ≠
      (tuneOf .standard song).value.meantLines.map String.toList := by
  decide +kernel

end Partitura
