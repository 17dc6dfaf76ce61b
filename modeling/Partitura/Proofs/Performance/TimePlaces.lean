import Mathlib.Data.List.Nodup
import Partitura.Music.Key
import Partitura.Music.Meter
import Partitura.Proofs.StableSort
import Partitura.Proofs.Text.Pieces
import Partitura.Score.Check

/-!
# The times of a score

The times of a score that are placed on the time line are its breakpoints of tempo, its
changes of meter and key that can be read, the starts and lengths of its notes and of what
changes within them, the lengths of its loops, and its automation and remarks. Each of them
has a place of its own in the score, and a path that no other one has.
-/

namespace Partitura

/-! ## Places -/

inductive NotePlace where
  | start
  | length
  | modulation (k : Nat)
deriving DecidableEq, Repr

inductive PartPlace where
  | note (j : Nat) (place : NotePlace)
  | loopEnd
  | loopSpan
deriving DecidableEq, Repr

inductive TimePlace where
  | tempo (i : Nat)
  | meter (i : Nat)
  | key (i : Nat)
  | part (i : Nat) (place : PartPlace)
  | automation (i : Nat)
  | remark (i : Nat)
deriving DecidableEq, Repr

def NotePlace.path : NotePlace → String
  | start => ".time"
  | length => ".duration"
  | modulation k => "." ++ entryPath "modulations" k ++ ".time"

def PartPlace.path : PartPlace → String
  | note j place => "." ++ entryPath "notes" j ++ place.path
  | loopEnd => ".loopEnd"
  | loopSpan => ".loop"

namespace TimePlace

def list : TimePlace → String
  | tempo _ => "tempoMap"
  | meter _ => "timeSignatureMap"
  | key _ => "keySignatureMap"
  | part _ _ => "sequences"
  | automation _ => "automation"
  | remark _ => "annotations"

def entry : TimePlace → Nat
  | tempo i | meter i | key i | part i _ | automation i | remark i => i

def inEntry : TimePlace → String
  | part _ place => place.path
  | _ => ""

def path (place : TimePlace) : String := entryPath place.list place.entry ++ place.inEntry

end TimePlace

/-- The path of an entry ends at its bracket, so what follows it can be told apart. -/
theorem entryPath_append_inj {a b x y : String} {i j : Nat} (ha : '[' ∉ a.toList)
    (hb : '[' ∉ b.toList) (h : entryPath a i ++ x = entryPath b j ++ y) :
    a = b ∧ i = j ∧ x = y := by
  have hnumber (n : Nat) : ']' ∉ (toString n).toList := fun hmem =>
    absurd (isDigit_of_mem_toString hmem) (by decide)
  have hshape (list : String) (n : Nat) (rest : String) : entryPath list n ++ rest =
      list ++ String.ofList ['['] ++ (toString n ++ String.ofList [']'] ++ rest) := by
    simp [entryPath, ← String.toList_inj]
  rw [hshape, hshape] at h
  have hlist := congrArg (Text.splitFirst '[') h
  rw [splitFirst_append ha, splitFirst_append hb] at hlist
  obtain ⟨rfl, hentry⟩ := Prod.mk.inj (Option.some.inj hlist)
  have hsplit := congrArg (Text.splitFirst ']') hentry
  rw [splitFirst_append (hnumber i), splitFirst_append (hnumber j)] at hsplit
  obtain ⟨hnumber, rfl⟩ := Prod.mk.inj (Option.some.inj hsplit)
  exact ⟨rfl, toString_nat_injective hnumber, rfl⟩

theorem NotePlace.path_injective : Function.Injective NotePlace.path := by
  have hchange (k : Nat) : (modulation k).path =
      entryPath ".modulations" k ++ ".time" := by
    simp [path, entryPath, ← String.toList_inj]
  have hstart (k : Nat) : start.path ≠ (modulation k).path := by
    intro h
    simp [path, entryPath, ← String.toList_inj] at h
  have hlength (k : Nat) : length.path ≠ (modulation k).path := by
    intro h
    simp [path, entryPath, ← String.toList_inj] at h
  intro p q h
  cases p with
  | start =>
    cases q with
    | start => rfl
    | length => exact absurd h (by decide)
    | modulation k => exact absurd h (hstart k)
  | length =>
    cases q with
    | start => exact absurd h (by decide)
    | length => rfl
    | modulation k => exact absurd h (hlength k)
  | modulation k =>
    cases q with
    | start => exact absurd h.symm (hstart k)
    | length => exact absurd h.symm (hlength k)
    | modulation l =>
      rw [hchange, hchange] at h
      rw [(entryPath_append_inj (by decide) (by decide) h).2.1]

theorem PartPlace.path_injective : Function.Injective PartPlace.path := by
  have hnote (j : Nat) (place : NotePlace) : (note j place).path =
      entryPath ".notes" j ++ place.path := by
    simp [path, entryPath, ← String.toList_inj]
  have hloopEnd (j : Nat) (place : NotePlace) : (note j place).path ≠ loopEnd.path := by
    intro h
    simp [path, entryPath, ← String.toList_inj] at h
  have hloopSpan (j : Nat) (place : NotePlace) : (note j place).path ≠ loopSpan.path := by
    intro h
    simp [path, entryPath, ← String.toList_inj] at h
  intro p q h
  cases p with
  | note j place =>
    cases q with
    | note k other =>
      rw [hnote, hnote] at h
      obtain ⟨-, rfl, hplace⟩ := entryPath_append_inj (by decide) (by decide) h
      rw [NotePlace.path_injective hplace]
    | loopEnd => exact absurd h (hloopEnd j place)
    | loopSpan => exact absurd h (hloopSpan j place)
  | loopEnd =>
    cases q with
    | note k other => exact absurd h.symm (hloopEnd k other)
    | loopEnd => rfl
    | loopSpan => exact absurd h (by decide)
  | loopSpan =>
    cases q with
    | note k other => exact absurd h.symm (hloopSpan k other)
    | loopEnd => exact absurd h (by decide)
    | loopSpan => rfl

/-- No two times of a score are reported at the same path. -/
theorem TimePlace.path_injective : Function.Injective TimePlace.path := by
  have hlist (p : TimePlace) : '[' ∉ p.list.toList := by cases p <;> simp [list]
  intro p q h
  obtain ⟨hlists, hentries, hplaces⟩ := entryPath_append_inj (hlist p) (hlist q) h
  -- The names of the lists are all different.
  cases p <;> cases q <;> simp [list] at hlists <;> obtain rfl := hentries
  case part.part => exact congrArg _ (PartPlace.path_injective hplaces)
  all_goals rfl

/-! ## Times -/

structure TimeEntry (α : Type) where
  place : TimePlace
  time : WrittenTime α

section Times

variable {α : Type}

def timeAt (place : TimePlace) (t : Option (WrittenTime α)) : List (TimeEntry α) :=
  (t.map (TimeEntry.mk place)).toList

def MeterPoint.times (i : Nat) (p : MeterPoint α) : List (TimeEntry α) :=
  if (Meter.parse? p.meter).isSome then [⟨.meter i, p.time⟩] else []

def KeyPoint.times (i : Nat) (p : KeyPoint α) : List (TimeEntry α) :=
  if (Key.parse? p.key).isSome then [⟨.key i, p.time⟩] else []

def Modulation.times (i j k : Nat) (m : Modulation α) : List (TimeEntry α) :=
  if m.kind.isKnown then timeAt (.part i (.note j (.modulation k))) m.time else []

def Note.times (i j : Nat) (n : Note α) : List (TimeEntry α) :=
  timeAt (.part i (.note j .start)) n.time ++ timeAt (.part i (.note j .length)) n.duration
    ++ n.modulations.zipIdx.flatMap fun (m, k) => m.times i j k

def Part.loopTimes (i : Nat) (p : Part α) : List (TimeEntry α) :=
  (if p.looping.isOff then [] else timeAt (.part i .loopEnd) p.loopEnd)
    ++ match p.looping, p.loopEnd with
      | .span t, some _ => [⟨.part i .loopSpan, t⟩]
      | _, _ => []

def Part.times (i : Nat) (p : Part α) : List (TimeEntry α) :=
  (p.noteList.zipIdx.flatMap fun (n, j) => n.times i j) ++ p.loopTimes i

def Score.sections (s : Score α) : List (List (TimeEntry α)) :=
  [s.tempoMap.zipIdx.map fun (p, i) => ⟨.tempo i, p.time⟩,
   s.meterMap.zipIdx.flatMap fun (p, i) => p.times i,
   s.keyMap.zipIdx.flatMap fun (p, i) => p.times i,
   s.partList.zipIdx.flatMap fun (p, i) => p.times i,
   s.automation.zipIdx.map fun (a, i) => ⟨.automation i, a.time⟩,
   s.remarks.zipIdx.map fun (r, i) => ⟨.remark i, r.time⟩]

def Score.times (s : Score α) : List (TimeEntry α) := s.sections.flatten

end Times

/-! ## Every time has a place of its own -/

section Places

variable {α : Type}

def placesOf (entries : List (TimeEntry α)) : List TimePlace := entries.map TimeEntry.place

theorem nodup_placesOf_flatMap {β : Type} {items : List β} {f : β × Nat → List (TimeEntry α)}
    (number : TimePlace → Nat) (h : ∀ x ∈ items.zipIdx,
      (∀ q ∈ placesOf (f x), number q = x.2) ∧ (placesOf (f x)).Nodup) :
    (placesOf (items.zipIdx.flatMap f)).Nodup := by
  rw [placesOf, List.map_flatMap]
  refine List.nodup_flatMap.mpr ⟨fun x hx => (h x hx).2, ?_⟩
  refine (pairwise_zipIdx_ne items).imp_of_mem fun {x y} hx hy hne => ?_
  refine List.disjoint_left.mpr fun q hqx hqy => hne ?_
  rw [← (h x hx).1 q hqx, (h y hy).1 q hqy]

theorem mem_placesOf_flatMap {β : Type} {items : List β} {f : β × Nat → List (TimeEntry α)}
    {q : TimePlace} (h : q ∈ placesOf (items.zipIdx.flatMap f)) :
    ∃ x i, q ∈ placesOf (f (x, i)) := by
  rw [placesOf, List.map_flatMap] at h
  obtain ⟨⟨x, i⟩, -, hq⟩ := List.mem_flatMap.mp h
  exact ⟨x, i, hq⟩

theorem placesOf_append (xs ys : List (TimeEntry α)) :
    placesOf (xs ++ ys) = placesOf xs ++ placesOf ys := List.map_append

theorem eq_of_mem_timeAt {place q : TimePlace} {t : Option (WrittenTime α)}
    (h : q ∈ placesOf (timeAt place t)) : q = place := by
  cases t with
  | none => cases h
  | some t => exact List.mem_singleton.mp h

theorem nodup_timeAt (place : TimePlace) (t : Option (WrittenTime α)) :
    (placesOf (timeAt place t)).Nodup := by
  cases t with
  | none => exact List.nodup_nil
  | some t => exact List.nodup_singleton place

/-! A place tells the change, the note, the entry and the list that it is in. -/

def TimePlace.change : TimePlace → Nat
  | part _ (.note _ (.modulation k)) => k
  | _ => 0

def TimePlace.note : TimePlace → Nat
  | part _ (.note j _) => j
  | _ => 0

def TimePlace.section : TimePlace → Nat
  | tempo _ => 0
  | meter _ => 1
  | key _ => 2
  | part _ _ => 3
  | automation _ => 4
  | remark _ => 5

theorem place_modulation {i j k : Nat} {m : Modulation α} {q : TimePlace}
    (h : q ∈ placesOf (m.times i j k)) : q = .part i (.note j (.modulation k)) := by
  unfold Modulation.times at h
  split at h
  · exact eq_of_mem_timeAt h
  · cases h

theorem nodup_modulation (i j k : Nat) (m : Modulation α) : (placesOf (m.times i j k)).Nodup := by
  unfold Modulation.times
  split
  · exact nodup_timeAt _ _
  · exact List.nodup_nil

theorem place_note {i j : Nat} {n : Note α} {q : TimePlace} (h : q ∈ placesOf (n.times i j)) :
    ∃ place, q = .part i (.note j place) := by
  rw [Note.times, placesOf_append, placesOf_append] at h
  rcases List.mem_append.mp h with h | h
  · rcases List.mem_append.mp h with h | h
    · exact ⟨.start, eq_of_mem_timeAt h⟩
    · exact ⟨.length, eq_of_mem_timeAt h⟩
  · obtain ⟨m, k, h⟩ := mem_placesOf_flatMap h
    exact ⟨.modulation k, place_modulation h⟩

theorem nodup_note (i j : Nat) (n : Note α) : (placesOf (n.times i j)).Nodup := by
  rw [Note.times, placesOf_append, placesOf_append]
  refine List.nodup_append'.mpr ⟨List.nodup_append'.mpr ⟨nodup_timeAt _ _, nodup_timeAt _ _, ?_⟩,
    nodup_placesOf_flatMap TimePlace.change fun ⟨m, k⟩ _ => ⟨fun q hq => ?_, ?_⟩, ?_⟩
  · refine List.disjoint_left.mpr fun q hstart hlength => ?_
    rw [eq_of_mem_timeAt hstart] at hlength
    cases eq_of_mem_timeAt hlength
  · rw [place_modulation hq]
    rfl
  · exact nodup_modulation i j k m
  · refine List.disjoint_left.mpr fun q hq hchange => ?_
    obtain ⟨m, k, hchange⟩ := mem_placesOf_flatMap hchange
    rw [place_modulation hchange] at hq
    rcases List.mem_append.mp hq with hq | hq <;> cases eq_of_mem_timeAt hq

theorem place_loop {i : Nat} {p : Part α} {q : TimePlace} (h : q ∈ placesOf (p.loopTimes i)) :
    q = .part i .loopEnd ∨ q = .part i .loopSpan := by
  rw [Part.loopTimes, placesOf_append] at h
  rcases List.mem_append.mp h with h | h
  · split at h
    · cases h
    · exact .inl (eq_of_mem_timeAt h)
  · split at h
    · exact .inr (List.mem_singleton.mp h)
    · cases h

theorem nodup_loop (i : Nat) (p : Part α) : (placesOf (p.loopTimes i)).Nodup := by
  rw [Part.loopTimes, placesOf_append]
  refine List.nodup_append'.mpr ⟨?_, ?_, List.disjoint_left.mpr fun q hend hspan => ?_⟩
  · split
    · exact List.nodup_nil
    · exact nodup_timeAt _ _
  · split
    · exact List.nodup_singleton _
    · exact List.nodup_nil
  · split at hend
    · cases hend
    · rw [eq_of_mem_timeAt hend] at hspan
      split at hspan
      · cases List.mem_singleton.mp hspan
      · cases hspan

theorem place_part {i : Nat} {p : Part α} {q : TimePlace} (h : q ∈ placesOf (p.times i)) :
    ∃ place, q = .part i place := by
  rw [Part.times, placesOf_append] at h
  rcases List.mem_append.mp h with h | h
  · obtain ⟨n, j, h⟩ := mem_placesOf_flatMap h
    obtain ⟨place, rfl⟩ := place_note h
    exact ⟨_, rfl⟩
  · rcases place_loop h with rfl | rfl
    · exact ⟨_, rfl⟩
    · exact ⟨_, rfl⟩

theorem nodup_part (i : Nat) (p : Part α) : (placesOf (p.times i)).Nodup := by
  rw [Part.times, placesOf_append]
  refine List.nodup_append'.mpr ⟨nodup_placesOf_flatMap TimePlace.note fun ⟨n, j⟩ _ =>
    ⟨fun q hq => ?_, nodup_note i j n⟩, nodup_loop i p, ?_⟩
  · obtain ⟨place, rfl⟩ := place_note hq
    rfl
  · refine List.disjoint_left.mpr fun q hnote hloop => ?_
    obtain ⟨n, j, hnote⟩ := mem_placesOf_flatMap hnote
    obtain ⟨place, rfl⟩ := place_note hnote
    rcases place_loop hloop with h | h <;> cases h

/-- Times that all stand in one section of a score, each at a place of its own. -/
structure InSection (number : Nat) (entries : List (TimeEntry α)) : Prop where
  places : ∀ q ∈ placesOf entries, q.section = number
  nodup : (placesOf entries).Nodup

theorem inSection_flatMap {β : Type} {items : List β} {f : β × Nat → List (TimeEntry α)}
    {number : Nat} (h : ∀ x i, (∀ q ∈ placesOf (f (x, i)), q.section = number ∧ q.entry = i) ∧
      (placesOf (f (x, i))).Nodup) : InSection number (items.zipIdx.flatMap f) where
  places q hq := by
    obtain ⟨x, i, hq⟩ := mem_placesOf_flatMap hq
    exact ((h x i).1 q hq).1
  nodup := nodup_placesOf_flatMap TimePlace.entry fun ⟨x, i⟩ _ =>
    ⟨fun q hq => ((h x i).1 q hq).2, (h x i).2⟩

theorem inSection_map {β : Type} {items : List β} {place : Nat → TimePlace}
    {time : β → WrittenTime α} {number : Nat}
    (h : ∀ i, (place i).section = number ∧ (place i).entry = i) :
    InSection number (items.zipIdx.map fun (x, i) => ⟨place i, time x⟩) := by
  rw [List.map_eq_flatMap]
  refine inSection_flatMap fun x i => ⟨fun q hq => ?_, List.nodup_singleton _⟩
  rw [List.mem_singleton.mp hq]
  exact h i

def InSections : Nat → List (List (TimeEntry α)) → Prop
  | _, [] => True
  | number, entries :: rest => InSection number entries ∧ InSections (number + 1) rest

theorem InSections.nodup {number : Nat} {sections : List (List (TimeEntry α))}
    (h : InSections number sections) : (placesOf sections.flatten).Nodup ∧
      ∀ q ∈ placesOf sections.flatten, number ≤ q.section := by
  induction sections generalizing number with
  | nil => exact ⟨List.nodup_nil, nofun⟩
  | cons entries rest ih =>
    obtain ⟨hentries, hrest⟩ := h
    obtain ⟨hnodup, hlater⟩ := ih hrest
    rw [List.flatten_cons, placesOf_append]
    refine ⟨List.nodup_append'.mpr ⟨hentries.nodup, hnodup, ?_⟩, fun q hq => ?_⟩
    · refine List.disjoint_left.mpr fun q hq hqlater => ?_
      have hlt := hlater q hqlater
      rw [hentries.places q hq] at hlt
      omega
    · rcases List.mem_append.mp hq with hq | hq
      · exact Nat.le_of_eq (hentries.places q hq).symm
      · exact Nat.le_of_succ_le (hlater q hq)

theorem inSections_score (s : Score α) : InSections 0 s.sections := by
  refine ⟨inSection_map fun i => ⟨rfl, rfl⟩, inSection_flatMap fun p i => ?_,
    inSection_flatMap fun p i => ?_, inSection_flatMap fun p i => ⟨fun q hq => ?_, nodup_part i p⟩,
    inSection_map fun i => ⟨rfl, rfl⟩, inSection_map fun i => ⟨rfl, rfl⟩, trivial⟩
  · by_cases hmeter : (Meter.parse? p.meter).isSome
    · simp [MeterPoint.times, hmeter, placesOf, TimePlace.section, TimePlace.entry]
    · simp [MeterPoint.times, hmeter, placesOf]
  · by_cases hkey : (Key.parse? p.key).isSome
    · simp [KeyPoint.times, hkey, placesOf, TimePlace.section, TimePlace.entry]
    · simp [KeyPoint.times, hkey, placesOf]
  · obtain ⟨place, rfl⟩ := place_part hq
    exact ⟨rfl, rfl⟩

theorem nodup_times (s : Score α) : (placesOf s.times).Nodup := (inSections_score s).nodup.1

end Places

end Partitura
