import Partitura.Proofs.Controllers

/-!
# What an overlaid map gives

A map gives a parameter a controller at places that it tries one after the other: first the tables
for the kind, by key and then by name, and then the keys that hold for every kind. Keys and names
are joined as they are spelled, but read without regard to case, so each of two maps may give the
parameter at places of its own. The joined map gives what the upper map gives, unless a place of
the lower one comes before all places of the upper one.
-/

namespace Partitura

/-! ## The first value of a table -/

theorem Sorted.findSome?_eq_some_iff {β γ : Type} {entries : Sorted β} (h : Ascending entries)
    {f : String × β → Option γ} {v : γ} : entries.findSome? f = some v ↔
      ∃ e ∈ entries, f e = some v ∧ ∀ d ∈ entries, d.1 < e.1 → f d = none := by
  rw [List.findSome?_eq_some_iff]
  constructor
  · rintro ⟨before, e, after, rfl, he, hbefore⟩
    refine ⟨e, by simp, he, fun d hd hlt => ?_⟩
    obtain ⟨-, hafter, -⟩ := List.pairwise_append.mp h
    rcases List.mem_append.mp hd with hd | hd
    · exact hbefore d hd
    · rcases List.mem_cons.mp hd with rfl | hd
      · exact absurd hlt (String.lt_irrefl _)
      · exact absurd hlt (String.lt_asymm ((List.pairwise_cons.mp hafter).1 d hd))
  · rintro ⟨e, hmem, he, hleast⟩
    obtain ⟨before, after, rfl⟩ := List.append_of_mem hmem
    refine ⟨before, e, after, rfl, he, fun d hd => hleast d (by simp [hd]) ?_⟩
    exact (List.pairwise_append.mp h).2.2 d hd e List.mem_cons_self

namespace ControllerMap

theorem findNamed_eq (name : String) (entries : Sorted Nat) : findNamed name entries =
    entries.findSome? fun e => if Text.sameLetters e.1 name then some e.2 else none := by
  induction entries with
  | nil => rfl
  | cons e rest ih =>
    unfold findNamed at ih ⊢
    rw [List.find?_cons, List.findSome?_cons, ← ih]
    cases Text.sameLetters e.1 name <;> rfl

theorem findNamed_eq_some_iff {entries : Sorted Nat} (h : Sorted.Ascending entries)
    {parameter : String} {number : Nat} : findNamed parameter entries = some number ↔
      ∃ name, Text.sameLetters name parameter = true ∧ (name, number) ∈ entries ∧
        ∀ e ∈ entries, Text.sameLetters e.1 parameter = true → ¬ e.1 < name := by
  rw [findNamed_eq, Sorted.findSome?_eq_some_iff h]
  simp only [Option.ite_none_right_eq_some, Option.some.injEq, ite_eq_right_iff, reduceCtorEq]
  constructor
  · rintro ⟨⟨name, _⟩, hmem, ⟨hname, rfl⟩, hleast⟩
    exact ⟨name, hname, hmem, fun e he hsame hlt => hleast e he hlt hsame⟩
  · rintro ⟨name, hname, hmem, hleast⟩
    exact ⟨(name, number), hmem, ⟨hname, rfl⟩, fun e he hlt hsame => hleast e he hsame hlt⟩

/-! ## Places -/

/-- Where a map can give a parameter a controller: under a name in the table of a key, or at a key
for every kind. -/
inductive Place where
  | own (key name : String)
  | shared (key : String)

namespace Place

def Before : Place → Place → Prop
  | own key name, own key' name' => key < key' ∨ key = key' ∧ name < name'
  | own _ _, shared _ => True
  | shared _, own _ _ => False
  | shared key, shared key' => key < key'

theorem before_asymm {p q : Place} (h : p.Before q) : ¬ q.Before p := by
  intro h'
  cases p with
  | own key name =>
    cases q with
    | own key' name' =>
      rcases h with h | ⟨rfl, h⟩
      · rcases h' with h' | ⟨rfl, -⟩
        · exact String.lt_asymm h h'
        · exact String.lt_irrefl _ h
      · rcases h' with h' | ⟨-, h'⟩
        · exact String.lt_irrefl _ h'
        · exact String.lt_asymm h h'
    | shared key' => exact h'
  | shared key =>
    cases q with
    | own key' name' => exact h
    | shared key' => exact String.lt_asymm h h'

theorem before_total (p q : Place) : p.Before q ∨ p = q ∨ q.Before p := by
  have htotal (s t : String) : s < t ∨ s = t ∨ t < s := by
    rcases Std.le_total (a := s) (b := t) with h | h
    · exact (Std.le_iff_lt_or_eq.mp h).imp_right .inl
    · exact .inr ((Std.le_iff_lt_or_eq.mp h).symm.imp_left Eq.symm)
  cases p with
  | own key name =>
    cases q with
    | own key' name' =>
      rcases htotal key key' with h | rfl | h
      · exact .inl (.inl h)
      · rcases htotal name name' with h | rfl | h
        · exact .inl (.inr ⟨rfl, h⟩)
        · exact .inr (.inl rfl)
        · exact .inr (.inr (.inr ⟨rfl, h⟩))
      · exact .inr (.inr (.inl h))
    | shared key' => exact .inl trivial
  | shared key =>
    cases q with
    | own key' name' => exact .inr (.inr trivial)
    | shared key' =>
      rcases htotal key key' with h | rfl | h
      · exact .inl h
      · exact .inr (.inl rfl)
      · exact .inr (.inr h)

end Place

def Gives (m : ControllerMap) (kind : DeviceKind) (parameter : String) : Place → Nat → Prop
  | .own key name, number =>
    DeviceKind.parse key = kind ∧ Text.sameLetters name parameter = true ∧
      ∃ table, (key, .table table) ∈ m.entries ∧ (name, number) ∈ table
  | .shared key, number =>
    Text.sameLetters key parameter = true ∧ (key, .controller number) ∈ m.entries

section Lookup

variable {m : ControllerMap} {kind : DeviceKind} {parameter : String}

theorem Tidy.entry_unique (hm : m.Tidy) {key : String} {e e' : ControllerEntry}
    (h : (key, e) ∈ m.entries) (h' : (key, e') ∈ m.entries) : e = e' := by
  rw [← Sorted.get?_eq_some_iff hm.ascending.distinct] at h h'
  exact Option.some.inj (h.symm.trans h')

theorem Tidy.number_unique (hm : m.Tidy) {p : Place} {n n' : Nat}
    (h : m.Gives kind parameter p n) (h' : m.Gives kind parameter p n') : n = n' := by
  cases p with
  | own key name =>
    obtain ⟨-, -, table, htable, hn⟩ := h
    obtain ⟨-, -, table', htable', hn'⟩ := h'
    obtain rfl := ControllerEntry.table.inj (hm.entry_unique htable htable')
    have hdistinct := (hm.entries _ htable).1.distinct
    rw [← Sorted.get?_eq_some_iff hdistinct] at hn hn'
    exact Option.some.inj (hn.symm.trans hn')
  | shared key => exact ControllerEntry.controller.inj (hm.entry_unique h.2 h'.2)

theorem forKind?_eq_some_iff (hm : m.Tidy) {e : String × ControllerEntry} (he : e ∈ m.entries)
    {number : Nat} : forKind? kind parameter e = some number ↔
      ∃ name, m.Gives kind parameter (.own e.1 name) number ∧
        ∀ name' n, m.Gives kind parameter (.own e.1 name') n → ¬ name' < name := by
  obtain ⟨key, entry⟩ := e
  cases entry with
  | controller c =>
    refine ⟨nofun, ?_⟩
    rintro ⟨name, ⟨-, -, table, htable, -⟩, -⟩
    cases hm.entry_unique he htable
  | table table =>
    have hgives (name : String) (n : Nat) : m.Gives kind parameter (.own key name) n ↔
        DeviceKind.parse key = kind ∧ Text.sameLetters name parameter = true ∧
          (name, n) ∈ table := by
      refine and_congr_right fun _ => and_congr_right fun _ => ⟨?_, fun h => ⟨table, he, h⟩⟩
      rintro ⟨table', htable', h⟩
      cases hm.entry_unique he htable'
      exact h
    simp only [forKind?, Option.ite_none_right_eq_some, hgives,
      findNamed_eq_some_iff (hm.entries _ he).1]
    constructor
    · rintro ⟨hkind, name, hname, hmem, hleast⟩
      exact ⟨name, ⟨hkind, hname, hmem⟩, fun name' n h => hleast _ h.2.2 h.2.1⟩
    · rintro ⟨name, ⟨hkind, hname, hmem⟩, hleast⟩
      exact ⟨hkind, name, hname, hmem, fun e he hsame => hleast e.1 e.2 ⟨hkind, hsame, he⟩⟩

theorem forAll?_eq_some_iff {e : String × ControllerEntry} {number : Nat} :
    forAll? parameter e = some number ↔
      Text.sameLetters e.1 parameter = true ∧ e.2 = .controller number := by
  obtain ⟨key, entry⟩ := e
  cases entry with
  | controller c => simp [forAll?]
  | table table => simp [forAll?]

theorem exists_forKind? {key name : String} {n : Nat}
    (h : m.Gives kind parameter (.own key name) n) :
    ∃ e ∈ m.entries, e.1 = key ∧ forKind? kind parameter e ≠ none := by
  obtain ⟨hkind, hname, table, htable, hn⟩ := h
  refine ⟨_, htable, rfl, fun hnone => ?_⟩
  simp only [forKind?, if_pos hkind, findNamed, Option.map_eq_none_iff,
    List.find?_eq_none] at hnone
  exact hnone _ hn hname

/-- The place at which a controller is found comes before all others of the map. -/
structure First (m : ControllerMap) (kind : DeviceKind) (parameter : String) (p : Place)
    (number : Nat) : Prop where
  gives : m.Gives kind parameter p number
  least : ∀ q n, m.Gives kind parameter q n → ¬ q.Before p

theorem Tidy.exists_first (hm : m.Tidy) {path : String} {number : Nat}
    (h : m.lookup kind path = some number) :
    ∃ p, m.First kind (Text.lastPiece '.' path) p number := by
  unfold lookup at h
  dsimp only at h
  generalize Text.lastPiece '.' path = parameter at h ⊢
  split at h
  · next hown =>
    cases h
    obtain ⟨e, he, hgives, hleast⟩ := (Sorted.findSome?_eq_some_iff hm.ascending).mp hown
    obtain ⟨name, hname, hnames⟩ := (forKind?_eq_some_iff hm he).mp hgives
    refine ⟨.own e.1 name, hname, fun q n hq => ?_⟩
    cases q with
    | own key' name' =>
      rintro (hlt | ⟨rfl, hlt⟩)
      · obtain ⟨d, hd, rfl, hsome⟩ := exists_forKind? hq
        exact hsome (hleast d hd hlt)
      · exact hnames name' n hq hlt
    | shared key' => exact id
  · next hown =>
    obtain ⟨e, he, hgives, hleast⟩ := (Sorted.findSome?_eq_some_iff hm.ascending).mp h
    obtain ⟨hsame, hentry⟩ := forAll?_eq_some_iff.mp hgives
    have hmem : (e.1, .controller number) ∈ m.entries := hentry ▸ he
    refine ⟨.shared e.1, ⟨hsame, hmem⟩, fun q n hq => ?_⟩
    cases q with
    | own key' name' =>
      obtain ⟨d, hd, -, hsome⟩ := exists_forKind? hq
      exact absurd (List.findSome?_eq_none_iff.mp hown d hd) hsome
    | shared key' =>
      intro hlt
      have hnone := hleast _ hq.2 hlt
      rw [forAll?_eq_some_iff.mpr ⟨hq.1, rfl⟩] at hnone
      cases hnone

theorem lookup_ne_none {path : String} {p : Place} {n : Nat}
    (h : m.Gives kind (Text.lastPiece '.' path) p n) : m.lookup kind path ≠ none := by
  unfold lookup
  dsimp only
  split
  · exact nofun
  · next hown =>
    cases p with
    | own key name =>
      obtain ⟨e, he, -, hsome⟩ := exists_forKind? h
      exact absurd (List.findSome?_eq_none_iff.mp hown e he) hsome
    | shared key =>
      intro hnone
      have hentry := List.findSome?_eq_none_iff.mp hnone _ h.2
      rw [forAll?_eq_some_iff.mpr ⟨h.1, rfl⟩] at hentry
      cases hentry

theorem Tidy.lookup_eq_some_iff (hm : m.Tidy) {path : String} {number : Nat} :
    m.lookup kind path = some number ↔ ∃ p, m.First kind (Text.lastPiece '.' path) p number := by
  refine ⟨hm.exists_first, ?_⟩
  rintro ⟨p, hp⟩
  obtain ⟨n, hn⟩ := Option.ne_none_iff_exists'.mp (lookup_ne_none hp.gives)
  obtain ⟨q, hq⟩ := hm.exists_first hn
  rcases p.before_total q with h | rfl | h
  · exact absurd h (hq.least p number hp.gives)
  · rw [hn, hm.number_unique hq.gives hp.gives]
  · exact absurd h (hp.least q n hq.gives)

end Lookup

/-! ## Joined maps -/

/-- A place of the map below that this map leaves as it is when it is laid over that one. -/
def Spares (overlay : ControllerMap) : Place → Prop
  | .own key name => ∀ e ∈ Sorted.get? key overlay.entries,
    ∃ table, e = .table table ∧ Sorted.get? name table = none
  | .shared key => Sorted.get? key overlay.entries = none

section Merge

variable {base overlay : ControllerMap} {kind : DeviceKind} {parameter : String}

theorem Tidy.mem_iff {m : ControllerMap} (hm : m.Tidy) {key : String} {e : ControllerEntry} :
    (key, e) ∈ m.entries ↔ Sorted.get? key m.entries = some e :=
  (Sorted.get?_eq_some_iff hm.ascending.distinct).symm

theorem Tidy.get?_merge (ho : overlay.Tidy) (base : ControllerMap) (key : String) :
    Sorted.get? key (base.merge overlay).entries =
      match Sorted.get? key overlay.entries with
      | none => Sorted.get? key base.entries
      | some v => some (ControllerMap.mergeEntry (Sorted.get? key base.entries) v) := by
  refine (Sorted.get?_overlayWith ho.ascending.distinct base.entries key).trans ?_
  cases Sorted.get? key overlay.entries <;> rfl

theorem mem_union_iff {lower upper : Sorted Nat} (hu : Sorted.Ascending lower)
    (ho : Sorted.Ascending upper) {name : String} {number : Nat} :
    (name, number) ∈ Sorted.union lower upper ↔
      (name, number) ∈ upper ∨ (name, number) ∈ lower ∧ Sorted.get? name upper = none := by
  have hunion : Sorted.Ascending (Sorted.union lower upper) := by
    rw [union_eq]
    exact Sorted.ascending_overlayWith hu upper
  rw [← Sorted.get?_eq_some_iff hunion.distinct, ← Sorted.get?_eq_some_iff ho.distinct,
    ← Sorted.get?_eq_some_iff hu.distinct, union_eq, Sorted.get?_overlayWith ho.distinct]
  cases Sorted.get? name upper with
  | none => simp
  | some v => simp

/-- The table at a key of the joined map has the entries of the upper one, and of the lower one
those that the upper one spares. -/
theorem Tidy.table_merge_iff (hb : base.Tidy) (ho : overlay.Tidy) {key name : String}
    {number : Nat} :
    (∃ table, (key, .table table) ∈ (base.merge overlay).entries ∧ (name, number) ∈ table) ↔
      (∃ table, (key, .table table) ∈ overlay.entries ∧ (name, number) ∈ table) ∨
        (∃ table, (key, .table table) ∈ base.entries ∧ (name, number) ∈ table) ∧
          overlay.Spares (.own key name) := by
  simp only [hb.mem_iff, ho.mem_iff, (hb.merge ho).mem_iff, ho.get?_merge, Spares]
  cases hover : Sorted.get? key overlay.entries with
  | none => simp
  | some e =>
    cases e with
    | controller c => simp [ControllerMap.mergeEntry]
    | table upper =>
      have hover' := (ho.get? hover).1
      cases hbase : Sorted.get? key base.entries with
      | none => simp [ControllerMap.mergeEntry]
      | some b =>
        cases b with
        | controller c => simp [ControllerMap.mergeEntry]
        | table lower =>
          have hunder := (hb.get? hbase).1
          simp [ControllerMap.mergeEntry, mem_union_iff hunder hover']

/-- The joined map gives what the upper map gives, and what the lower one gives at the places
that the upper one spares. -/
theorem Tidy.gives_merge_iff (hb : base.Tidy) (ho : overlay.Tidy) {p : Place} {number : Nat} :
    (base.merge overlay).Gives kind parameter p number ↔
      overlay.Gives kind parameter p number ∨
        base.Gives kind parameter p number ∧ overlay.Spares p := by
  cases p with
  | own key name =>
    simp only [Gives, hb.table_merge_iff ho, and_or_left, and_assoc]
  | shared key =>
    simp only [Gives, hb.mem_iff, ho.mem_iff, (hb.merge ho).mem_iff, ho.get?_merge, Spares]
    cases hover : Sorted.get? key overlay.entries with
    | none => simp
    | some e =>
      cases e with
      | controller c => simp [ControllerMap.mergeEntry]
      | table upper => cases Sorted.get? key base.entries with
        | none => simp [ControllerMap.mergeEntry]
        | some b => cases b <;> simp [ControllerMap.mergeEntry]

theorem Spares.not_gives (ho : overlay.Tidy) {p : Place} (h : overlay.Spares p) {number : Nat} :
    ¬ overlay.Gives kind parameter p number := by
  cases p with
  | own key name =>
    rintro ⟨-, -, table, htable, hn⟩
    have hentry := ho.mem_iff.mp htable
    obtain ⟨table', heq, hnone⟩ := h _ hentry
    cases heq
    rw [(Sorted.get?_eq_some_iff (ho.entries _ htable).1.distinct).mpr hn] at hnone
    cases hnone
  | shared key =>
    rintro ⟨-, hentry⟩
    rw [ho.mem_iff, h] at hentry
    cases hentry

/-- A place of the lower map that shadows the upper one: it is spared, it comes before all places
of the upper map and is the first such place of its own map, and it gives another controller than
the upper map. -/
structure Shadows (base overlay : ControllerMap) (kind : DeviceKind) (path : String) (p : Place)
    (number : Nat) : Prop where
  gives : base.Gives kind (Text.lastPiece '.' path) p number
  spared : overlay.Spares p
  before : ∀ q n, overlay.Gives kind (Text.lastPiece '.' path) q n → p.Before q
  first : ∀ q n, base.Gives kind (Text.lastPiece '.' path) q n → overlay.Spares q → ¬ q.Before p
  differs : overlay.lookup kind path ≠ some number

/-- In the joined map a parameter has the controller that the upper map gives it, unless a place
of the lower map shadows that one. -/
theorem lookup_merge_eq_iff (hb : base.Tidy) (ho : overlay.Tidy) (kind : DeviceKind)
    (path : String) : (base.merge overlay).lookup kind path = overlay.lookup kind path ↔
      ¬ ∃ p number, Shadows base overlay kind path p number := by
  have hm := hb.merge ho
  constructor
  · rintro heq ⟨p, number, hp⟩
    refine hp.differs ?_
    rw [← heq, hm.lookup_eq_some_iff]
    refine ⟨p, (hb.gives_merge_iff ho).mpr (.inr ⟨hp.gives, hp.spared⟩), fun q n hq => ?_⟩
    rcases (hb.gives_merge_iff ho).mp hq with hq | ⟨hq, hspared⟩
    · exact Place.before_asymm (hp.before q n hq)
    · exact hp.first q n hq hspared
  · intro hnone
    cases hfound : (base.merge overlay).lookup kind path with
    | none =>
      refine (Option.eq_none_iff_forall_ne_some.mpr fun n hn => ?_).symm
      obtain ⟨p, hp⟩ := ho.exists_first hn
      exact lookup_ne_none ((hb.gives_merge_iff ho).mpr (.inl hp.gives)) hfound
    | some number =>
      obtain ⟨p, hp⟩ := hm.exists_first hfound
      have hupper {q : Place} {n : Nat} (hq : overlay.Gives kind (Text.lastPiece '.' path) q n) :
          ¬ q.Before p := hp.least q n ((hb.gives_merge_iff ho).mpr (.inl hq))
      rcases (hb.gives_merge_iff ho).mp hp.gives with hgives | ⟨hgives, hspared⟩
      · exact (ho.lookup_eq_some_iff.mpr ⟨p, hgives, fun q n hq => hupper hq⟩).symm
      · refine Decidable.byContradiction fun hne => ?_
        refine hnone ⟨p, number, hgives, hspared, fun q n hq => ?_, fun q n hq hs => ?_,
          Ne.symm hne⟩
        · rcases p.before_total q with h | rfl | h
          · exact h
          · exact absurd hq (hspared.not_gives ho)
          · exact absurd h (hupper hq)
        · exact hp.least q n ((hb.gives_merge_iff ho).mpr (.inr ⟨hq, hs⟩))

/-- A setting for the parameter that the standard map spells `modulationIndex` has no effect if it
is spelled in small letters. -/
theorem lookup_merge_eq_iff_standard :
    let overlay : ControllerMap := ⟨[("fmSynth", .table [("modulationindex", 20)])]⟩
    standard.Tidy ∧ overlay.Tidy ∧ overlay.lookup .fmSynth "modulationindex" = some 20 ∧
      (standard.merge overlay).lookup .fmSynth "modulationindex" = some 1 ∧
      ∃ p number, Shadows standard overlay .fmSynth "modulationindex" p number := by
  intro overlay
  have ho : overlay.Tidy :=
    ⟨List.pairwise_singleton _ _, by
      simp only [overlay, List.forall_mem_singleton, ControllerEntry.Tidy]
      exact ⟨List.pairwise_singleton _ _, by decide⟩⟩
  have hupper : overlay.lookup .fmSynth "modulationindex" = some 20 := by decide +kernel
  have hjoined : (standard.merge overlay).lookup .fmSynth "modulationindex" = some 1 := by
    decide +kernel
  refine ⟨tidy_standard, ho, hupper, hjoined, Classical.byContradiction fun hnone => ?_⟩
  have heq := (lookup_merge_eq_iff tidy_standard ho .fmSynth "modulationindex").mpr hnone
  rw [hupper, hjoined] at heq
  cases heq

end Merge

end ControllerMap

end Partitura
