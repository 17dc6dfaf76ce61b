import Partitura.Proofs.Number.Order
import Partitura.Proofs.Performance.Reports
import Partitura.Proofs.StableSort
import Partitura.Proofs.Tune.Lines
import Partitura.Proofs.Tune.Onsets

/-!
# Remarks in a tune

The remarks of a performance wait in the order of their places until a note of the first voice
opens a slot, which takes those that are due. So each of them stands at one note or is reported
as dropped, in this order. Where no slot starts just before a bar line, the notes that open a
slot are the onsets, and each remark stands at the first onset at or after its place.
-/

namespace Partitura

open Outcome

/-! ## Texts -/

section Texts

variable {α : Type} [Scalar α]

def Diagnostic.OnPart (d : Diagnostic) : Prop :=
  ∃ path, d.path = some path ∧ Opens "sequences[" path

theorem opens_partPath (i : Nat) : Opens "sequences[" (entryPath "sequences" i) :=
  ((opens_self "sequences[").append (toString i)).append "]"

theorem onPart_slotPitch {path : String} (hpath : Opens "sequences[" path) (v : PitchValue) :
    Reports Diagnostic.OnPart (slotPitch path v) := by
  unfold slotPitch
  split
  · exact reports_note_bind ⟨path, rfl, hpath⟩ fun _ => reports_pure _
  · split <;> exact reports_pure _

theorem onPart_noteSlot (tempo : TempoMap α) {path : String} (hpath : Opens "sequences[" path)
    (n : PlayedNote α) : Reports Diagnostic.OnPart (noteSlot tempo path n) := by
  unfold noteSlot
  dsimp only
  split
  · exact reports_pure _
  · refine reports_bind (reports_flatMap fun o ho => ?_) fun _ => reports_pure _
    obtain ⟨v, -, rfl⟩ := List.mem_map.mp ho
    exact onPart_slotPitch (((hpath.append ".").append _).append ".note") v

theorem onPart_partSlots (p : Performance α) (i : Nat) (part : PlayedPart α) :
    Reports Diagnostic.OnPart (partSlots p i part) := by
  have hpath := opens_partPath i
  have hslots : Reports Diagnostic.OnPart (slots p.tempo (entryPath "sequences" i) part) := by
    refine reports_bind (reports_flatMap fun o ho => ?_) fun _ => reports_pure _
    obtain ⟨n, -, rfl⟩ := List.mem_map.mp ho
    exact onPart_noteSlot p.tempo hpath n
  unfold partSlots
  dsimp only
  split
  · exact reports_note_bind ⟨_, rfl, hpath.append ".loop"⟩ fun _ => hslots
  · exact hslots

theorem onPart_voiceSlots (p : Performance α) : Reports Diagnostic.OnPart (voiceSlots p) :=
  reports_bind (reports_collect fun part _ i => onPart_partSlots p i part) fun _ => reports_pure _

/-- Every remark is told: those of the first voice, in their order, and after them the ones that
are reported as dropped are all remarks in the order of their places, those at the same place as
they stood. The other voices have none. -/
structure TellsRemarks (settings : TuneSettings) (p : Performance α) (first : Voice)
    (dropped : List String) : Prop where
  voices : ∃ others, (tuneOf settings p).value.voices = first :: others ∧
    ∀ voice ∈ others, voice.remarks = []
  reports : (tuneOf settings p).diagnostics.filter (fun d => d.path == some "annotations") =
    dropped.map droppedRemark
  texts : first.remarks ++ dropped = (Cues.ofPerformance p).remarks.map Prod.snd
  ordered : StablySorted (fun a b => Scalar.sortsBefore a.1 b.1)
    (p.remarks.map fun r => (p.tempo.beatAtSeconds r.time, r.text)) (Cues.ofPerformance p).remarks

theorem reports_tuneOf (settings : TuneSettings) (p : Performance α) :
    (tuneOf settings p).diagnostics.filter (fun d => d.path == some "annotations") =
      (layVoices p settings.barsPerLine (voiceSlots p).value).2.remarks.map fun r =>
        droppedRemark r.2 := by
  have hsplit : (tuneOf settings p).diagnostics = (voiceSlots p).diagnostics ++
      ((layVoices p settings.barsPerLine (voiceSlots p).value).2.remarks.map fun r =>
        droppedRemark r.2) := by
    simp only [tuneOf, diagnostics_bind, diagnostics_collect, diagnostics_pure, List.append_nil,
      List.flatMap_map, diagnostics_note]
    rw [← List.map_eq_flatMap]
  have hparts : (voiceSlots p).diagnostics.filter (fun d => d.path == some "annotations") = [] := by
    rw [List.filter_eq_nil_iff]
    intro d hd hpath
    obtain ⟨path, hplace, hopens⟩ := onPart_voiceSlots p d hd
    rw [hplace] at hpath
    have hsame : path = "annotations" := Option.some.inj (beq_iff_eq.mp hpath)
    exact ne_of_openings hopens (opens_self "annotations") (by decide) hsame
  rw [hsplit, List.filter_append, hparts, List.nil_append, List.filter_eq_self]
  intro d hd
  obtain ⟨r, -, rfl⟩ := List.mem_map.mp hd
  rfl

theorem exists_voiceSlots (p : Performance α) :
    ∃ slots later, (voiceSlots p).value = slots :: later := by
  simp only [voiceSlots, value_bind, value_pure]
  split
  · exact ⟨[], [], rfl⟩
  · next hnone =>
    exact List.exists_cons_of_ne_nil fun hnil => hnone (List.isEmpty_iff.mpr hnil)

def firstVoice (settings : TuneSettings) (p : Performance α) (slots : List (Slot α)) :
    Voice × Cues α :=
  layVoice 1 slots (sharedBars p) (p.key.getD .cMajor) settings.barsPerLine (Cues.ofPerformance p)

theorem tellsRemarks_firstVoice [OrderedScalar α] (settings : TuneSettings) (p : Performance α)
    {slots : List (Slot α)} {later : List (List (Slot α))}
    (hslots : (voiceSlots p).value = slots :: later) :
    TellsRemarks settings p (firstVoice settings p slots).1
      ((firstVoice settings p slots).2.remarks.map Prod.snd) where
  voices := by
    refine ⟨later.zipIdx.map fun e => (layVoice (e.2 + 2) e.1 (sharedBars p)
      (p.key.getD .cMajor) settings.barsPerLine Cues.none).1, ?_, ?_⟩
    · show (layVoices p settings.barsPerLine (voiceSlots p).value).1 = _
      unfold firstVoice sharedBars
      rw [hslots]
      rfl
    · intro voice hvoice
      obtain ⟨e, -, rfl⟩ := List.mem_map.mp hvoice
      exact (List.append_eq_nil_iff.mp (remarks_layVoice (e.2 + 2) e.1 (sharedBars p)
        (p.key.getD .cMajor) settings.barsPerLine Cues.none)).1
  reports := by
    rw [reports_tuneOf, List.map_map]
    unfold firstVoice sharedBars
    rw [hslots]
    rfl
  texts := remarks_layVoice 1 slots _ _ _ (Cues.ofPerformance p)
  ordered := stablySorted_mergeSort
    (fun a b c => OrderedScalar.sortsBefore_trans a.1 b.1 c.1)
    (fun a b => OrderedScalar.sortsBefore_total a.1 b.1) _

end Texts

/-! ## Notes that bring in remarks -/

section Bringing

variable {α : Type} [Scalar α]

/-- The notes of a voice as they are written, and what they bring in of the remarks that wait: a
note that opens a slot takes those that are due at its place, and any other takes none. -/
inductive Brings : List (α × String) → List (LaidNote α) → List (Nat × Token) →
    List (α × String) → Prop
  | nil (cues : List (α × String)) : Brings cues [] [] cues
  | opens {cues left : List (α × String)} {n : LaidNote α} {note : Nat × Token}
      {notes : List (LaidNote α)} {rest : List (Nat × Token)} (hopens : n.opens = true)
      (hwritten : IsWritten n.bar n.number n.slot n.place note)
      (hremarks : note.2.remarks = (cues.takeWhile (isDue n.place)).map Prod.snd)
      (hrest : Brings (cues.dropWhile (isDue n.place)) notes rest left) :
      Brings cues (n :: notes) (note :: rest) left
  | goesOn {cues left : List (α × String)} {n : LaidNote α} {note : Nat × Token}
      {notes : List (LaidNote α)} {rest : List (Nat × Token)} (hopens : n.opens = false)
      (hwritten : IsWritten n.bar n.number n.slot n.place note)
      (hremarks : note.2.remarks = []) (hrest : Brings cues notes rest left) :
      Brings cues (n :: notes) (note :: rest) left

theorem Brings.append {cues mid left : List (α × String)} {notes later : List (LaidNote α)}
    {tokens rest : List (Nat × Token)} (h : Brings cues notes tokens mid)
    (hlater : Brings mid later rest left) : Brings cues (notes ++ later) (tokens ++ rest) left := by
  induction h with
  | nil => exact hlater
  | opens hopens hwritten hremarks _ ih => exact .opens hopens hwritten hremarks (ih hlater)
  | goesOn hopens hwritten hremarks _ ih => exact .goesOn hopens hwritten hremarks (ih hlater)

theorem brings_slotToken (bar : Bar α) (number : Nat) (place : α) (slot : Slot α)
    (s : VoiceState α) :
    Brings s.cues.remarks [⟨bar, number, place, slot⟩] [(number, (slotToken bar place slot s).1)]
      (slotToken bar place slot s).2.cues.remarks := by
  have hwritten := isWritten_slotToken bar number slot place s
  by_cases hopens : bar.start - nearness ≤ slot.start
  · have hleft : (slotToken bar place slot s).2.cues.remarks =
        s.cues.remarks.dropWhile (isDue place) := by
      simp only [slotToken, openSlot, if_pos hopens]
    rw [hleft]
    refine .opens (decide_eq_true hopens) hwritten ?_ (.nil _)
    simp only [slotToken, openSlot, if_pos hopens]
  · have hleft : (slotToken bar place slot s).2.cues.remarks = s.cues.remarks := by
      simp only [slotToken, if_neg hopens]
    rw [hleft]
    exact .goesOn (decide_eq_false hopens) hwritten (hwritten.bare hopens).1 (.nil _)

theorem brings_writeStretch (bar : Bar α) (number : Nat) (st : Stretch α) (s : VoiceState α) :
    Brings s.cues.remarks (st.laidNote? bar number).toList
        (notesInBars number (writeStretch bar st s).1) (writeStretch bar st s).2.cues.remarks ∧
      (writeStretch bar st s).1.filter Element.isBarEnd = [] := by
  obtain ⟨hnone, hends⟩ := notesInBars_takeTempos number st.start s
  cases hslot : st.slot? with
  | none =>
    simp only [writeStretch, hslot, Stretch.laidNote?, notesInBars_append, List.filter_append,
      hnone, hends]
    exact ⟨.nil _, rfl⟩
  | some slot =>
    simp only [writeStretch, hslot, Stretch.laidNote?, notesInBars_append, List.filter_append,
      hnone, hends]
    exact ⟨brings_slotToken bar number st.start slot (takeTempos st.start s).2, rfl⟩

theorem brings_writeStretches (bar : Bar α) (number : Nat) (sts : List (Stretch α))
    (s : VoiceState α) :
    Brings s.cues.remarks (sts.filterMap (Stretch.laidNote? bar number))
      (notesInBars number (writeStretches bar sts s).1)
      (writeStretches bar sts s).2.cues.remarks := by
  induction sts generalizing s with
  | nil => exact .nil _
  | cons st rest ih =>
    obtain ⟨hfirst, hends⟩ := brings_writeStretch bar number st s
    have hcons : (st :: rest).filterMap (Stretch.laidNote? bar number) =
        (st.laidNote? bar number).toList ++ rest.filterMap (Stretch.laidNote? bar number) := by
      cases hnote : st.laidNote? bar number <;> simp [hnote]
    simp only [writeStretches, notesInBars_append, hends, List.length_nil, Nat.add_zero, hcons]
    exact hfirst.append (ih (writeStretch bar st s).2)

theorem brings_layBar (bar : Bar α) (number : Nat) (s : VoiceState α) :
    Brings s.cues.remarks
      ((stretchesOf bar s.slots).1.filterMap (Stretch.laidNote? bar number))
      (notesInBars number (layBar bar s).1) (layBar bar s).2.cues.remarks := by
  obtain ⟨hnone, hends⟩ := notesInBars_barFields number bar
  rw [layBar_eq]
  simp only [notesInBars_append, hnone, hends, List.nil_append, List.length_nil, Nat.add_zero]
  exact brings_writeStretches bar number (stretchesOf bar s.slots).1 (s.enter bar)

theorem brings_layBars (barsPerLine line number : Nat) (bars : List (Bar α)) (s : VoiceState α) :
    Brings s.cues.remarks (laidNotes number bars s.slots)
      (notesInBars number (layBars barsPerLine line bars s).1)
      (layBars barsPerLine line bars s).2.cues.remarks := by
  induction bars generalizing line number s with
  | nil => exact .nil _
  | cons bar rest ih =>
    obtain ⟨hend, hends⟩ := notesInBars_barEnd number barsPerLine line rest.isEmpty
    have hlater := ih (line + 1) (number + 1) (layBar bar s).2
    rw [slots_layBar] at hlater
    simp only [layBars, notesInBars_append, List.filter_append, (notesInBars_layBar bar number s).2,
      hend, hends, List.nil_append, List.append_nil, List.length_nil, List.length_singleton,
      Nat.add_zero]
    exact (brings_layBar bar number s).append hlater

theorem brings_layVoice (id : Nat) (slots : List (Slot α)) (bars : List (Bar α)) (key : Key)
    (barsPerLine : Nat) (cues : Cues α) :
    Brings cues.remarks (laidNotes 0 bars slots)
      (notesInBars 0 (layVoice id slots bars key barsPerLine cues).1.elements)
      (layVoice id slots bars key barsPerLine cues).2.remarks :=
  brings_layBars barsPerLine 1 0 bars ⟨key, [], none, slots, cues⟩

/-! ## The first place at or after a cue -/

/-- The number of the first of some places at which a cue is due. -/
def firstAt? (places : List α) (cue : α × String) : Option Nat :=
  places.findIdx? fun place => isDue place cue

def remarksAt (places : List α) (cues : List (α × String)) : List (List String) :=
  (List.range places.length).map fun i =>
    (cues.filter fun cue => firstAt? places cue == some i).map Prod.snd

def unplaced (places : List α) (cues : List (α × String)) : List (α × String) :=
  cues.filter fun cue => (firstAt? places cue).isNone

theorem firstAt?_cons (place : α) (rest : List α) (cue : α × String) :
    firstAt? (place :: rest) cue =
      if isDue place cue then some 0 else (firstAt? rest cue).map (· + 1) :=
  List.findIdx?_cons

theorem unplaced_nil (cues : List (α × String)) : unplaced [] cues = cues :=
  List.filter_eq_self.mpr fun _ _ => rfl

end Bringing

section Places

variable {cues : List (Rat × String)} (hcues : cues.Pairwise fun a b => a.1 ≤ b.1)

include hcues

theorem due_eq_filter (place : Rat) :
    cues.takeWhile (isDue place) = cues.filter (isDue place) ∧
      cues.dropWhile (isDue place) = cues.filter (!isDue place ·) := by
  refine takeWhile_eq_filter (hcues.imp fun hle hdue => ?_)
  exact decide_eq_true (hle.trans (of_decide_eq_true hdue))

theorem remarksAt_cons (place : Rat) (rest : List Rat) :
    remarksAt (place :: rest) cues = (cues.takeWhile (isDue place)).map Prod.snd ::
      remarksAt rest (cues.dropWhile (isDue place)) := by
  obtain ⟨hdue, hleft⟩ := due_eq_filter hcues place
  have hfirst : cues.filter (fun cue => firstAt? (place :: rest) cue == some 0) =
      cues.filter (isDue place) := by
    refine List.filter_congr fun cue _ => ?_
    rw [firstAt?_cons]
    cases isDue place cue <;> cases firstAt? rest cue <;> rfl
  have hlater (i : Nat) : cues.filter (fun cue => firstAt? (place :: rest) cue == some (i + 1)) =
      (cues.filter (!isDue place ·)).filter fun cue => firstAt? rest cue == some i := by
    rw [List.filter_filter]
    refine List.filter_congr fun cue _ => ?_
    rw [firstAt?_cons]
    cases isDue place cue <;> cases firstAt? rest cue <;> simp
  rw [remarksAt, List.length_cons, List.range_succ_eq_map, List.map_cons, List.map_map, hfirst,
    hdue, hleft, remarksAt]
  refine congrArg _ (List.map_congr_left fun i _ => ?_)
  rw [Function.comp_apply, Nat.succ_eq_add_one, hlater]

theorem unplaced_cons (place : Rat) (rest : List Rat) :
    unplaced (place :: rest) cues = unplaced rest (cues.dropWhile (isDue place)) := by
  rw [(due_eq_filter hcues place).2, unplaced, unplaced, List.filter_filter]
  refine List.filter_congr fun cue _ => ?_
  rw [firstAt?_cons]
  cases isDue place cue <;> cases firstAt? rest cue <;> rfl

end Places

/-! ## Runs of notes -/

def remarksOf (run : List (Nat × Token)) : List String := run.flatMap fun note => note.2.remarks

def Tied (run : List (Nat × Token)) : Prop :=
  ∃ before last, run = before ++ [last] ∧ (∀ note ∈ before, note.2.tie = true) ∧
    last.2.tie = false

/-- The notes of a slot from its onset on: the first one is written there, the others are tied to
it, and only the first one can have remarks. -/
structure NotedFrom (onset : LaidNote Rat) (run : List (Nat × Token)) : Prop where
  first : ∃ note later, run = note :: later ∧
    IsWritten onset.bar onset.number onset.slot onset.place note ∧
    ∀ note ∈ later, note.2.remarks = []
  tied : Tied run

def HeldOver : Option (Slot Rat) → List (Nat × Token) → Prop
  | none, carried => carried = []
  | some _, carried => Tied carried ∧ ∀ note ∈ carried, note.2.remarks = []

theorem HeldOver.bare {held? : Option (Slot Rat)} {carried : List (Nat × Token)}
    (h : HeldOver held? carried) : ∀ note ∈ carried, note.2.remarks = [] := by
  cases held? with
  | none =>
    obtain rfl : carried = [] := h
    exact fun note hnote => absurd hnote List.not_mem_nil
  | some held => exact h.2

theorem HeldOver.tied {n : LaidNote Rat} {note : Nat × Token} {carried : List (Nat × Token)}
    (h : HeldOver n.held? carried) (htie : note.2.tie = n.ties) : Tied (note :: carried) := by
  unfold LaidNote.held? at h
  cases hties : n.ties with
  | false =>
    rw [hties, if_neg Bool.false_ne_true] at h
    obtain rfl : carried = [] := h
    exact ⟨[], note, rfl, fun note hnote => absurd hnote List.not_mem_nil, htie.trans hties⟩
  | true =>
    rw [hties, if_pos rfl] at h
    obtain ⟨⟨before, last, rfl, hbefore, hlast⟩, -⟩ := h
    exact ⟨note :: before, last, rfl, List.forall_mem_cons.mpr ⟨htie.trans hties, hbefore⟩, hlast⟩

/-- Runs of notes from the onsets among some notes of a voice, in order from a place on, with the
remarks that are due there first; the cues that are due at none of them are left. -/
structure RunsFrom (lo : Rat) (notes : List (LaidNote Rat)) (cues left : List (Rat × String))
    (onsets : List (LaidNote Rat)) (runs : List (List (Nat × Token))) : Prop where
  noted : List.Forall₂ NotedFrom onsets runs
  opens : onsets = notes.filter LaidNote.opens
  begun : ∀ onset ∈ onsets, onset.IsOnset ∧ lo ≤ onset.place
  ordered : (onsets.map LaidNote.place).Pairwise (· < ·)
  remarks : runs.map remarksOf = remarksAt (onsets.map LaidNote.place) cues
  left : left = unplaced (onsets.map LaidNote.place) cues

section Runs

variable {lo mid : Rat} {n : LaidNote Rat} {note : Nat × Token} {notes onsets : List (LaidNote Rat)}
  {cues left : List (Rat × String)} {carried : List (Nat × Token)}
  {runs : List (List (Nat × Token))}

theorem runsFrom_nil (lo : Rat) (cues : List (Rat × String)) : RunsFrom lo [] cues cues [] [] where
  noted := .nil
  opens := rfl
  begun _ h := absurd h List.not_mem_nil
  ordered := .nil
  remarks := rfl
  left := (unplaced_nil cues).symm

theorem RunsFrom.goesOn (h : RunsFrom mid notes cues left onsets runs) (hopens : n.opens = false)
    (hle : lo ≤ mid) : RunsFrom lo (n :: notes) cues left onsets runs where
  noted := h.noted
  opens := by rw [List.filter_cons_of_neg (Bool.eq_false_iff.mp hopens), ← h.opens]
  begun onset honset := by
    obtain ⟨hons, hmid⟩ := h.begun onset honset
    exact ⟨hons, hle.trans hmid⟩
  ordered := h.ordered
  remarks := h.remarks
  left := h.left

theorem RunsFrom.begins
    (h : RunsFrom mid notes (cues.dropWhile (isDue n.place)) left onsets runs)
    (hcues : cues.Pairwise fun a b => a.1 ≤ b.1) (hlo : lo ≤ n.place) (hmid : n.place < mid)
    (honset : n.IsOnset) (hopens : n.opens = true)
    (hwritten : IsWritten n.bar n.number n.slot n.place note)
    (hremarks : note.2.remarks = (cues.takeWhile (isDue n.place)).map Prod.snd)
    (hcarried : HeldOver n.held? carried) :
    RunsFrom lo (n :: notes) cues left (n :: onsets) ((note :: carried) :: runs) where
  noted := .cons ⟨⟨note, carried, rfl, hwritten, hcarried.bare⟩, hcarried.tied hwritten.tie⟩ h.noted
  opens := by rw [List.filter_cons_of_pos hopens, ← h.opens]
  begun := by
    refine List.forall_mem_cons.mpr ⟨⟨honset, hlo⟩, fun later hlater => ?_⟩
    obtain ⟨hons, hplace⟩ := h.begun later hlater
    exact ⟨hons, (hlo.trans hmid.le).trans hplace⟩
  ordered := by
    refine List.pairwise_cons.mpr ⟨?_, h.ordered⟩
    intro place hplace
    obtain ⟨later, hlater, rfl⟩ := List.mem_map.mp hplace
    exact hmid.trans_le (h.begun later hlater).2
  remarks := by
    have hbare : remarksOf carried = [] := List.flatMap_eq_nil_iff.mpr hcarried.bare
    have hfirst : remarksOf (note :: carried) = note.2.remarks := by
      rw [remarksOf, List.flatMap_cons]
      exact (congrArg (note.2.remarks ++ ·) hbare).trans (List.append_nil _)
    rw [List.map_cons, List.map_cons, remarksAt_cons hcues, hfirst, hremarks, h.remarks]
  left := by rw [List.map_cons, unplaced_cons hcues, h.left]

end Runs

/-- Notes that follow each other and bring in remarks in order go in runs, after the notes in
which a slot goes on that is held over. -/
theorem runs_of_follows {lo hi : Rat} {held? : Option (Slot Rat)} {notes : List (LaidNote Rat)}
    (h : Follows lo held? notes hi none) {cues left : List (Rat × String)}
    {tokens : List (Nat × Token)} (hcues : cues.Pairwise fun a b => a.1 ≤ b.1)
    (hbrings : Brings cues notes tokens left) :
    ∃ carried onsets runs, tokens = carried ++ runs.flatten ∧ HeldOver held? carried ∧
      RunsFrom lo notes cues left onsets runs := by
  generalize hnone : (none : Option (Slot Rat)) = last? at h
  induction h generalizing cues tokens with
  | @nil lo hi hle held? =>
    subst hnone
    cases hbrings
    exact ⟨[], [], [], rfl, rfl, runsFrom_nil lo _⟩
  | @begins lo mid hi n rest held? hlo hmid honset hopens _ ih =>
    cases hbrings with
    | goesOn hcloses => exact absurd (hopens.symm.trans hcloses) Bool.false_ne_true.symm
    | @opens _ _ _ note _ tokens _ hwritten hremarks hrest =>
      obtain ⟨carried, onsets, runs, rfl, hcarried, hruns⟩ :=
        ih (hcues.sublist (List.dropWhile_sublist _)) hrest hnone
      exact ⟨[], n :: onsets, (note :: carried) :: runs, rfl, rfl,
        hruns.begins hcues hlo hmid honset hopens hwritten hremarks hcarried⟩
  | @goesOn lo mid hi n rest held? hlo hmid hopens _ ih =>
    cases hbrings with
    | opens hcloses => exact absurd (hopens.symm.trans hcloses) Bool.false_ne_true
    | @goesOn _ _ _ note _ tokens _ hwritten hremarks hrest =>
      obtain ⟨carried, onsets, runs, rfl, hcarried, hruns⟩ := ih hcues hrest hnone
      exact ⟨note :: carried, onsets, runs, rfl,
        ⟨hcarried.tied hwritten.tie, List.forall_mem_cons.mpr ⟨hremarks, hcarried.bare⟩⟩,
        hruns.goesOn hopens (hlo.trans hmid.le)⟩

/-! ## Tunes -/

/-- A voice whose notes go in runs, one from each onset of a slot, and no slot has two onsets.
Every remark stands at the first onset at or after its place, up to nearness, and those that come
after all onsets are dropped. -/
structure Voice.RemarkedAt (voice : Voice) (bars : List (Bar Rat)) (slots : List (Slot Rat))
    (cues : List (Rat × String)) (dropped : List String) (onsets : List (LaidNote Rat))
    (runs : List (List (Nat × Token))) : Prop where
  notes : notesInBars 0 voice.elements = runs.flatten
  noted : List.Forall₂ NotedFrom onsets runs
  begun : ∀ onset ∈ onsets, (onset.bar, onset.number) ∈ bars.zipIdx ∧ onset.IsOnset
  slots : List.Sublist (onsets.map LaidNote.slot) slots
  ordered : (onsets.map LaidNote.place).Pairwise (· < ·)
  remarks : runs.map remarksOf = remarksAt (onsets.map LaidNote.place) cues
  dropped : dropped = (unplaced (onsets.map LaidNote.place) cues).map Prod.snd

theorem remarkedAt_layVoice {hi : Rat} {bars : List (Bar Rat)} {slots : List (Slot Rat)}
    (htiles : Tiles 0 bars hi) (hlasts : ∀ bar ∈ bars, bar.start < bar.stop - nearness)
    (hturns : TakeTurns slots) (hclear : ClearOfLines bars slots)
    (hreach : ∀ slot ∈ slots, slot.stop - nearness ≤ hi) (id : Nat) (key : Key) (barsPerLine : Nat)
    {cues : Cues Rat} (hcues : cues.remarks.Pairwise fun a b => a.1 ≤ b.1) :
    ∃ onsets runs, (layVoice id slots bars key barsPerLine cues).1.RemarkedAt bars slots
      cues.remarks ((layVoice id slots bars key barsPerLine cues).2.remarks.map Prod.snd)
      onsets runs := by
  have hnearness := nearness_eq
  have hleft : LeftOver 0 none slots := fun slot hslot => by
    have hstart := hturns.starts slot hslot
    exact .inr (by linarith)
  obtain ⟨hfollows, hopened⟩ := follows_laidNotes htiles hlasts hturns hclear hreach hleft 0
  obtain ⟨carried, onsets, runs, hnotes, hcarried, hruns⟩ := runs_of_follows hfollows hcues
    (brings_layVoice id slots bars key barsPerLine cues)
  obtain rfl : carried = [] := hcarried
  refine ⟨onsets, runs, hnotes, hruns.noted, fun onset honset => ?_, ?_, hruns.ordered,
    hruns.remarks, congrArg (List.map Prod.snd) hruns.left⟩
  · have hmem : onset ∈ laidNotes 0 bars slots :=
      List.mem_of_mem_filter (hruns.opens ▸ honset)
    exact ⟨bar_mem_of_laidNotes hmem, (hruns.begun onset honset).1⟩
  · rw [hruns.opens]
    exact hopened.trans (leftAt_sublist 0 slots)

theorem tiles_sharedBars (s : Score Rat) :
    ∃ hi, Tiles 0 (sharedBars (perform s)) hi ∧
      ∀ slots ∈ (voiceSlots (perform s)).value, ∀ slot ∈ slots, slot.stop - nearness ≤ hi := by
  obtain ⟨hstart, hstops⟩ :=
    le_foldl_maxOf ((voiceSlots (perform s)).value.flatten.map Slot.stop) 0
  obtain ⟨hi, htiles, hend⟩ := tiles_barGrid (metersLast_perform s) hstart
  refine ⟨hi, htiles, fun slots hslots slot hslot => ?_⟩
  have hstop := hstops slot.stop (List.mem_map_of_mem (List.mem_flatten_of_mem hslots hslot))
  exact (sub_le_sub_right hstop nearness).trans hend

/-- In a tune every remark stands once in the first voice or is reported as dropped, in the order
of their places. Over exact numbers, and unless a slot of the first voice starts just before a
bar line, each stands at the first onset at or after its place, and only those are dropped that
come after all onsets. -/
theorem remarkedAt_tuneOf (settings : TuneSettings) :
    (∀ (α : Type) [Scalar α] [OrderedScalar α] (p : Performance α),
      ∃ first dropped, TellsRemarks settings p first dropped) ∧
    ∀ s : Score Rat, ∃ first slots later dropped,
      TellsRemarks settings (perform s) first dropped ∧
      (voiceSlots (perform s)).value = slots :: later ∧
      (ClearOfLines (sharedBars (perform s)) slots →
        ∃ onsets runs, first.RemarkedAt (sharedBars (perform s)) slots
          (Cues.ofPerformance (perform s)).remarks dropped onsets runs) := by
  constructor
  · intro α _ _ p
    obtain ⟨slots, later, hslots⟩ := exists_voiceSlots p
    exact ⟨_, _, tellsRemarks_firstVoice settings p hslots⟩
  · intro s
    obtain ⟨slots, later, hslots⟩ := exists_voiceSlots (perform s)
    refine ⟨_, slots, later, _, tellsRemarks_firstVoice settings (perform s) hslots, hslots, ?_⟩
    intro hclear
    have hmem : slots ∈ (voiceSlots (perform s)).value := hslots ▸ List.mem_cons_self
    obtain ⟨hi, htiles, hreach⟩ := tiles_sharedBars s
    exact remarkedAt_layVoice htiles (fun bar => lasts_of_mem_barGrid (metersLast_perform s))
      (takeTurns_voiceSlots s slots hmem) hclear (hreach slots hmem) 1 _ _
      (pairwise_sortByTime_rat Prod.fst _)

/-- A note over two bar lines, with a remark before it. -/
theorem remarkedAt_tuneOf_held :
    let held : Note Rat := .sounding (.single (.name "C4")) (.seconds (3 / 2)) (.seconds 3)
    let lead : Part Rat := (Part.labelled "lead" (some [held])).playing "lead"
    let song : Score Rat := { Score.empty with
      bpm := some 120, parts := some [lead], remarks := [⟨"intro", .seconds 1, none⟩] }
    ∃ first slots dropped,
      slots.map (fun slot => (slot.start, slot.stop)) = [(3, 9)] ∧
      (Cues.ofPerformance (perform song)).remarks = [(2, "intro")] ∧
      ClearOfLines (sharedBars (perform song)) slots ∧
      TellsRemarks .standard (perform song) first dropped ∧
      ∃ onsets runs, first.RemarkedAt (sharedBars (perform song)) slots
        (Cues.ofPerformance (perform song)).remarks dropped onsets runs := by
  intro held lead song
  obtain ⟨first, slots, later, dropped, htells, hslots, hremarked⟩ :=
    (remarkedAt_tuneOf .standard).2 song
  have hplaces : slots.map (fun slot => (slot.start, slot.stop)) = [(3, 9)] := by
    have hall : (voiceSlots (perform song)).value.map
        (List.map fun slot => (slot.start, slot.stop)) = [[(3, 9)]] := by decide +kernel
    rw [hslots] at hall
    exact (List.cons.inj hall).1
  have hclear : ClearOfLines (sharedBars (perform song)) slots := by
    have hall : ∀ slots ∈ (voiceSlots (perform song)).value,
        ClearOfLines (sharedBars (perform song)) slots := by decide +kernel
    exact hall slots (hslots ▸ List.mem_cons_self)
  exact ⟨first, slots, dropped, hplaces, by decide +kernel, hclear, htells, hremarked hclear⟩

/-- A remark before the start of a note that stands at the note after it. -/
theorem remarked_past_note :
    let long : PlayedNote Rat := ⟨0, [.midi 60], 0, 4 - 1 / 2000000, 1, none, none, none, []⟩
    let short : PlayedNote Rat := ⟨1, [.midi 62], 4 - 7 / 5000000, 1, 1, none, none, none, []⟩
    let last : PlayedNote Rat := ⟨2, [.midi 64], 6, 1, 1, none, none, none, []⟩
    let lead : PlayedPart Rat :=
      ⟨"lead", ⟨none, .synth, []⟩, [], [long, short, last], .once, none⟩
    let song : Performance Rat := ⟨formatName, formatVersion, 60, .common, none, .constant 60,
      [], [], ⟨none, none, none⟩, [], [], [lead], [], [⟨"mark", 39 / 10, .text⟩], []⟩
    ∃ slots, (voiceSlots song).value = [slots] ∧
      slots.map Slot.start = [0, 4 - 7 / 5000000, 6] ∧
      (Cues.ofPerformance song).remarks = [(39 / 10, "mark")] ∧
      (tuneOf .standard song).value.voices.map
        (fun voice => (notesInBars 0 voice.elements).map fun note => note.2.remarks) =
          [[[], [], ["mark"]]] := by
  intro long short last lead song
  have hvoices : (voiceSlots song).value = [(slots song.tempo "sequences[0]" lead).value] := rfl
  have hslots : (slots song.tempo "sequences[0]" lead).value =
      ((([long, short, last].filter (isHeard song.tempo)).map (slotAlone song.tempo)).foldl
        addSlot []).reverse := by
    rw [value_slots, heardNotes, sortByTime, List.mergeSort_of_pairwise (by decide +kernel)]
    rfl
  refine ⟨_, hvoices, ?_, by decide +kernel, ?_⟩
  · rw [hslots]
    decide +kernel
  · have hlaid : (tuneOf .standard song).value.voices =
        (layVoices song TuneSettings.standard.barsPerLine (voiceSlots song).value).1 := rfl
    rw [hlaid, hvoices, hslots]
    decide +kernel

end Partitura
