import Partitura.Proofs.Text.Pieces

/-!
# Lines of texts

A text falls into lines at its newlines, and a reader may end lines at other blanks as well,
though never at a space. A flat text has no blanks but spaces, so it is one line for every
reader. What a text has beyond the lines that are expected of it is counted, so that the two
agree just if the count is zero.
-/

namespace Partitura

/-- A list is as expected, but for a number of entries that it has in addition. -/
structure Exceeds {β : Type} (found expected : List β) (surplus : Nat) : Prop where
  length : found.length = expected.length + surplus
  eq : surplus = 0 → found = expected

namespace Exceeds

variable {β γ : Type} {found found' expected expected' : List β} {m n : Nat}

theorem refl (xs : List β) : Exceeds xs xs 0 := ⟨rfl, fun _ => rfl⟩

theorem append (h : Exceeds found expected m) (h' : Exceeds found' expected' n) :
    Exceeds (found ++ found') (expected ++ expected') (m + n) := by
  refine ⟨?_, fun hnone => ?_⟩
  · rw [List.length_append, List.length_append, h.length, h'.length]
    omega
  · rw [h.eq (by omega), h'.eq (by omega)]

theorem flatMap {items : List γ} {f g : γ → List β} {count : γ → Nat}
    (h : ∀ x ∈ items, Exceeds (f x) (g x) (count x)) :
    Exceeds (items.flatMap f) (items.flatMap g) (items.map count).sum := by
  induction items with
  | nil => exact refl []
  | cons x rest ih =>
    rw [List.flatMap_cons, List.flatMap_cons, List.map_cons, List.sum_cons]
    exact (h x List.mem_cons_self).append (ih fun y hy => h y (List.mem_cons_of_mem x hy))

theorem eq_iff (h : Exceeds found expected n) : found = expected ↔ n = 0 := by
  refine ⟨fun heq => ?_, h.eq⟩
  have hlength := h.length
  rw [heq] at hlength
  omega

end Exceeds

theorem length_splitOnP {β : Type} (p : β → Bool) (xs : List β) :
    (xs.splitOnP p).length = xs.countP p + 1 := by
  induction xs with
  | nil => rfl
  | cons x rest ih =>
    rw [List.splitOnP_cons_eq_if_modifyHead]
    cases hx : p x <;> simp [hx, ih]

namespace Text

/-! ## Flat texts -/

def Flat (s : String) : Prop := ∀ c ∈ s.toList, isBlank c = true → c = ' '

-- Named, since a search may come upon the instance that tries every character there is.
instance (s : String) : Decidable (Flat s) :=
  List.decidableBAll (fun c => isBlank c = true → c = ' ') s.toList

theorem Flat.append {s t : String} (hs : Flat s) (ht : Flat t) : Flat (s ++ t) := by
  intro c hc
  rw [String.toList_append] at hc
  exact (List.mem_append.mp hc).elim (hs c) (ht c)

theorem flat_join {texts : List String} (h : ∀ t ∈ texts, Flat t) : Flat (String.join texts) := by
  intro c hc
  rw [String.toList_join] at hc
  obtain ⟨t, ht, hc⟩ := List.mem_flatMap.mp hc
  exact h t ht c hc

theorem flat_intercalate {sep : String} {texts : List String} (hsep : Flat sep)
    (h : ∀ t ∈ texts, Flat t) : Flat (sep.intercalate texts) := by
  induction texts with
  | nil => simp [Flat]
  | cons t rest ih =>
    have ht := h t List.mem_cons_self
    cases rest with
    | nil => simpa using ht
    | cons u rest =>
      rw [String.intercalate_cons_cons]
      exact (ht.append hsep).append (ih fun u hu => h u (List.mem_cons_of_mem t hu))

theorem isBlank_of_isDigit {c : Char} (h : c.isDigit = true) : isBlank c = false := by
  have hrange : 48 ≤ c.toNat ∧ c.toNat ≤ 57 := by
    simpa [Char.isDigit, UInt32.le_iff_toNat_le] using h
  simp [isBlank, inRanges, blankRanges]
  omega

theorem flat_of_digits {s : String} (h : ∀ c ∈ s.toList, c.isDigit = true) : Flat s := by
  intro c hc hblank
  rw [isBlank_of_isDigit (h c hc)] at hblank
  cases hblank

theorem flat_toString (n : Nat) : Flat (toString n) :=
  flat_of_digits fun _ => isDigit_of_mem_toString

theorem not_mem_cutWhere {p : Char → Bool} {cs piece : List Char} (h : piece ∈ cutWhere p cs) :
    ∀ c ∈ piece, p c = false := by
  induction cs generalizing piece with
  | nil =>
    rw [List.mem_singleton.mp h]
    nofun
  | cons c rest ih =>
    simp only [cutWhere] at h
    split at h
    · rcases List.mem_cons.mp h with rfl | h
      · nofun
      · exact ih h
    · next hc =>
      have hc : p c = false := Bool.eq_false_iff.mpr hc
      split at h
      · rw [List.mem_singleton.mp h]
        simpa using hc
      · next first others hcut =>
        rw [hcut] at ih
        rcases List.mem_cons.mp h with rfl | h
        · have hfirst := ih List.mem_cons_self
          simpa [hc] using hfirst
        · exact ih (List.mem_cons_of_mem first h)

theorem flat_oneLine (s : String) : Flat (oneLine s) := by
  refine flat_intercalate (by decide) fun word hword c hc hblank => ?_
  obtain ⟨piece, hpiece, rfl⟩ := List.mem_map.mp hword
  rw [String.toList_ofList] at hc
  have hnot := not_mem_cutWhere (List.mem_filter.mp hpiece).1 c hc
  rw [hblank] at hnot
  cases hnot

/-! ## Lines -/

/-- Characters at which lines end: the newline, and it may be other blanks, but no space. -/
structure LineEnds where
  ends : Char → Bool
  newline : ends '\n' = true
  blank : ∀ c, ends c = true → isBlank c = true
  space : ends ' ' = false

def LineEnds.newlines : LineEnds where
  ends := fun c => c == '\n'
  newline := rfl
  blank := fun c hc => by
    rw [beq_iff_eq.mp hc]
    rfl
  space := rfl

namespace LineEnds

variable (b : LineEnds)

def lines (s : String) : List (List Char) := s.toList.splitOnP b.ends

def later (s : String) : List (List Char) := (b.lines s).tail

def breaks (s : String) : Nat := s.toList.countP b.ends

/-- A text does not go on to another line. -/
def OneLine (s : String) : Prop := b.later s = []

instance (s : String) : Decidable (b.OneLine s) := inferInstanceAs (Decidable (_ = _))

variable {b}

theorem ends_of_flat {s : String} (hs : Flat s) : ∀ c ∈ s.toList, b.ends c = false := by
  intro c hc
  by_contra hends
  have hends := Bool.eq_true_of_not_eq_false hends
  rw [hs c hc (b.blank c hends), b.space] at hends
  cases hends

theorem lines_ne_nil (s : String) : b.lines s ≠ [] := List.splitOnP_ne_nil _ _

theorem lines_of_flat {s : String} (hs : Flat s) : b.lines s = [s.toList] :=
  List.splitOnP_eq_singleton (ends_of_flat hs)

theorem later_of_flat {s : String} (hs : Flat s) : b.later s = [] := by
  rw [later, lines_of_flat hs]
  rfl

theorem lines_joined (texts : List String) :
    b.lines (String.join (texts.map (· ++ "\n"))) = texts.flatMap b.lines ++ [[]] := by
  induction texts with
  | nil => rfl
  | cons t rest ih =>
    unfold lines at ih ⊢
    rw [List.map_cons, String.join_cons, String.append_assoc, String.toList_append,
      String.toList_append, List.flatMap_cons, List.append_assoc, ← ih]
    exact List.splitOnP_append_cons _ _ b.newline

theorem length_lines (s : String) : (b.lines s).length = b.breaks s + 1 :=
  length_splitOnP b.ends s.toList

theorem length_later (s : String) : (b.later s).length = b.breaks s := by
  rw [later, List.length_tail, length_lines, Nat.add_sub_cancel]

theorem oneLine_iff {s : String} : b.OneLine s ↔ b.breaks s = 0 := by
  rw [OneLine, ← length_later, List.length_eq_zero_iff]

/-- A text has one line, and one more for each place where a line ends. -/
theorem exceeds_lines (s : String) : Exceeds (b.lines s) [s.toList] (b.breaks s) := by
  refine ⟨by rw [length_lines, List.length_singleton, Nat.add_comm], fun hnone => ?_⟩
  refine List.splitOnP_eq_singleton fun c hc => ?_
  exact Bool.eq_false_iff.mpr (List.countP_eq_zero.mp hnone c hc)

theorem breaks_of_flat {s : String} (hs : Flat s) : b.breaks s = 0 := by
  rw [← oneLine_iff, OneLine, later_of_flat hs]

theorem breaks_append (s t : String) : b.breaks (s ++ t) = b.breaks s + b.breaks t := by
  rw [breaks, String.toList_append, List.countP_append]
  rfl

theorem breaks_join (texts : List String) :
    b.breaks (String.join texts) = (texts.map b.breaks).sum := by
  rw [breaks, String.toList_join, List.countP_flatMap]
  rfl

theorem lines_append_of_unbroken {pre : String} (hpre : b.breaks pre = 0) (s : String) :
    b.lines (pre ++ s) = (b.lines s).modifyHead (pre.toList ++ ·) := by
  have hsplit (cs : List Char) (h : cs.countP b.ends = 0) :
      (cs ++ s.toList).splitOnP b.ends = (s.toList.splitOnP b.ends).modifyHead (cs ++ ·) := by
    induction cs with
    | nil =>
      rw [List.nil_append]
      cases s.toList.splitOnP b.ends <;> rfl
    | cons c rest ih =>
      have hc := List.countP_eq_zero.mp h c List.mem_cons_self
      rw [List.countP_cons_of_neg hc] at h
      rw [List.cons_append, List.splitOnP_cons_eq_if_modifyHead, if_neg hc, ih h,
        List.modifyHead_modifyHead]
      rfl
  rw [lines, String.toList_append]
  exact hsplit _ hpre

theorem later_append_of_unbroken {pre : String} (hpre : b.breaks pre = 0) (s : String) :
    b.later (pre ++ s) = b.later s := by
  rw [later, lines_append_of_unbroken hpre, later]
  cases b.lines s <;> rfl

theorem lines_newline_append (s : String) : b.lines ("\n" ++ s) = [] :: b.lines s := by
  rw [lines, String.toList_append]
  exact List.splitOnP_append_cons [] s.toList b.newline

theorem exists_lines_append {post : String} (s : String) (hpost : Flat post) :
    ∃ before last, b.lines s = before ++ [last] ∧
      b.lines (s ++ post) = before ++ [last ++ post.toList] := by
  have hsplit (cs : List Char) : ∃ before last, cs.splitOnP b.ends = before ++ [last] ∧
      (cs ++ post.toList).splitOnP b.ends = before ++ [last ++ post.toList] := by
    induction cs with
    | nil => exact ⟨[], [], rfl, List.splitOnP_eq_singleton (ends_of_flat hpost)⟩
    | cons c rest ih =>
      obtain ⟨before, last, hrest, hall⟩ := ih
      rw [List.cons_append, List.splitOnP_cons_eq_if_modifyHead,
        List.splitOnP_cons_eq_if_modifyHead, hrest, hall]
      cases hc : b.ends c with
      | true => exact ⟨[] :: before, last, rfl, rfl⟩
      | false =>
        cases before with
        | nil => exact ⟨[], c :: last, rfl, rfl⟩
        | cons first others => exact ⟨(c :: first) :: others, last, rfl, rfl⟩
  obtain ⟨before, last, hs, hall⟩ := hsplit s.toList
  exact ⟨before, last, hs, by rw [lines, String.toList_append, hall]⟩

end LineEnds

end Text
end Partitura
