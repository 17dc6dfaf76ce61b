import Partitura.Proofs.Toml.Numbers
import Partitura.Proofs.Toml.Quoted
import Partitura.Toml.Reader

/-!
# Lines of TOML

A text that is put together line by line is read line by line: blank lines and comments hold
nothing, and each other line holds an item or cannot be read. The items of the text are those of
its lines, and the text can be read to its end if and only if each line can.
-/

namespace Partitura.Toml

variable {α : Type} [Scalar α]

/-! ## Keys -/

def isKeyStart (c : Char) : Bool := isKeyChar c || c == '"' || c == '\''

theorem exists_keyText (key : String) :
    ∃ c cs, (keyText key).toList = c :: cs ∧ isKeyStart c = true := by
  unfold keyText
  split
  · next h =>
    obtain ⟨hne, hchars⟩ := isBare_iff.mp h
    obtain ⟨c, cs, hcs⟩ := List.exists_cons_of_ne_nil hne
    exact ⟨c, cs, hcs, by simp [isKeyStart, hchars c (hcs ▸ List.mem_cons_self)]⟩
  · unfold quoted
    dsimp only
    cases Form.ofTraits (Traits.ofText key.toList) <;>
      exact ⟨_, _, by simp [Form.quotes]; exact ⟨rfl, rfl⟩, by simp [isKeyStart]⟩

theorem skipSpace_cons {c : Char} (h : isSpace c = false) (cs : List Char) :
    skipSpace (c :: cs) = c :: cs := by
  simp [skipSpace, h]

theorem skipSpace_keyText (key : String) (rest : List Char) :
    skipSpace ((keyText key).toList ++ rest) = (keyText key).toList ++ rest := by
  obtain ⟨c, cs, hcs, hc⟩ := exists_keyText key
  have hspace : isSpace c = false := by
    simp [isSpace, ne_of_test hc (d := ' ') rfl, ne_of_test hc (d := '\t') rfl]
  rw [hcs]
  exact skipSpace_cons hspace _

theorem keyParts?_last {key : String} (h : OnLine key) {c : Char} (hc : isKeyChar c = false)
    {rest after : List Char} (hafter : skipSpace (c :: rest) = after)
    (hdot : after.head? ≠ some '.') (fuel : Nat) :
    keyParts? (fuel + 1) ((keyText key).toList ++ c :: rest) = some ([key], after) := by
  rw [keyParts?, skipSpace_keyText, keyPart?_keyText h (by simpa using hc)]
  simp only [Option.bind_eq_bind, Option.bind_some, hafter]
  split
  · simp at hdot
  · rfl

theorem keyParts?_long {key : String} (h : ¬ OnLine key) (rest : List Char) (fuel : Nat) :
    ∃ quote after, (quote = '"' ∨ quote = '\'') ∧
      keyParts? (fuel + 1) ((keyText key).toList ++ rest) = some ([""], quote :: after) := by
  obtain ⟨quote, after, hquote, hkey⟩ := keyText_long h
  refine ⟨quote, after ++ rest, hquote, ?_⟩
  rw [keyParts?, skipSpace_keyText, hkey]
  simp only [List.cons_append, keyPart?_long hquote, Option.bind_eq_bind, Option.bind_some]
  rcases hquote with rfl | rfl <;> simp [skipSpace, isSpace]

/-! ## Lines -/

def isItemStart (c : Char) : Bool := !(isSpace c || c == '\n' || c == '\r' || c == '#')

/-- A text without its last newline is read as an item, or it cannot be read. -/
structure Reading (t : List Char) (r : Option (Item α)) : Prop where
  start : ∃ c cs, t = c :: cs ∧ isItemStart c = true
  read : ∀ rest, item? (t ++ '\n' :: rest) = r.map fun item => (item, rest)

/-- A value is read to its end, or it cannot be read. -/
structure ReadsValue (t : List Char) (r : Option (Toml α)) : Prop where
  start : ∃ c cs, t = c :: cs ∧ isSpace c = false
  read : ∀ rest, value? maxDepth (t ++ '\n' :: rest) = r.map fun v => (.plain v, '\n' :: rest)

theorem value?_quote {c : Char} (hc : c = '"' ∨ c = '\'') (depth : Nat) (cs : List Char) :
    (value? depth (c :: cs) : Option (Written α × List Char)) =
      (text? (c :: cs)).map fun (s, rest) => (.plain (.string s), rest) := by
  cases depth <;> simp only [value?, hc, if_true] <;> cases text? (c :: cs) <;> rfl

theorem readsValue_quoted (s : String) :
    ReadsValue (quoted s).toList (some (.string s : Toml α)) := by
  have hread (rest : List Char) :
      text? ((quoted s).toList ++ '\n' :: rest) = some (s, '\n' :: rest) :=
    text?_quoted (by simp) s
  have hstart : ∃ c cs, (quoted s).toList = c :: cs ∧ (c = '"' ∨ c = '\'') := by
    unfold quoted
    dsimp only
    cases Form.ofTraits (Traits.ofText s.toList) <;>
      exact ⟨_, _, by simp [Form.quotes]; exact ⟨rfl, rfl⟩, by simp⟩
  obtain ⟨c, cs, hcs, hc⟩ := hstart
  rw [hcs] at hread ⊢
  refine ⟨⟨c, cs, rfl, by rcases hc with rfl | rfl <;> rfl⟩, fun rest => ?_⟩
  have hread := hread rest
  rw [List.cons_append] at hread ⊢
  rw [value?_quote hc, hread]
  rfl

theorem readsValue_word {t : List Char} (hne : t ≠ []) (h : ∀ c ∈ t, isNumeric c = true) :
    ReadsValue t (word? t : Option (Toml α)) := by
  obtain ⟨c, cs, rfl⟩ := List.exists_cons_of_ne_nil hne
  refine ⟨⟨c, cs, rfl, ?_⟩, value?_of_word h maxDepth⟩
  have hc := h c List.mem_cons_self
  simp [isSpace, ne_of_test hc (d := ' ') rfl, ne_of_test hc (d := '\t') rfl]

def whole (n : Nat) : Option (Toml α) := if n < 2 ^ 63 then some (.integer n) else none

theorem readsValue_toString (n : Nat) :
    ReadsValue (toString n).toList (whole n : Option (Toml α)) := by
  have h := readsValue_word (α := α) (Number.digits_toString n).1 (numeric_toString n)
  rwa [word?_toString] at h

def real (x : Float) : Option (Toml Float) := if x.isNaN then none else some (.float x)

theorem word?_settingText_eq (x : Float) :
    (word? (Scalar.settingText x).toList : Option (Toml Float)) = real x := by
  unfold real
  cases h : x.isNaN with
  | true => exact word?_settingText_of_isNaN h
  | false => exact word?_settingText h

theorem settingText_ne_nil (x : Float) : (Scalar.settingText x).toList ≠ [] := by
  intro hnil
  cases h : x.isNaN with
  | true =>
    have htext : (Scalar.settingText x).toList = "NaN".toList := congrArg String.toList (if_pos h)
    rw [htext] at hnil
    cases hnil
  | false =>
    have hword := word?_settingText_eq x
    rw [hnil, real, h] at hword
    cases hword

theorem readsValue_settingText (x : Float) :
    ReadsValue (Scalar.settingText x).toList (real x) := by
  have h := readsValue_word (α := Float) (settingText_ne_nil x) (numeric_settingText x)
  rwa [word?_settingText_eq] at h

theorem toList_entryLine (key : String) (value : List Char) (rest : List Char) :
    (keyText key).toList ++ (" = ".toList ++ value) ++ '\n' :: rest =
      (keyText key).toList ++ ' ' :: ('=' :: ' ' :: (value ++ '\n' :: rest)) := by
  simp

theorem pair?_entry {key : String} (h : OnLine key) {value : List Char} {r : Option (Toml α)}
    (hvalue : ReadsValue value r) (rest : List Char) :
    pair? (value? maxDepth) ((keyText key).toList ++ (" = ".toList ++ value) ++ '\n' :: rest) =
      r.map fun v => (([key], .plain v), '\n' :: rest) := by
  obtain ⟨⟨c, cs, rfl, hc⟩, hread⟩ := hvalue
  have hkey : key? ((keyText key).toList ++ ' ' :: '=' :: ' ' :: (c :: cs ++ '\n' :: rest)) =
      some ([key], '=' :: ' ' :: (c :: cs ++ '\n' :: rest)) :=
    keyParts?_last h rfl (by simp [skipSpace, isSpace]) (by simp) 78
  have hspace : skipSpace (' ' :: (c :: cs ++ '\n' :: rest)) = c :: cs ++ '\n' :: rest := by
    rw [skipSpace, List.dropWhile_cons_of_pos rfl]
    exact skipSpace_cons hc _
  rw [toList_entryLine]
  simp only [pair?, hkey, Option.bind_eq_bind, Option.bind_some, after?, if_true, hspace]
  rw [hread]
  cases r <;> rfl

theorem pair?_long {key : String} (h : ¬ OnLine key) (rest : List Char) :
    (pair? (value? maxDepth) ((keyText key).toList ++ rest) :
      Option ((List String × Written α) × List Char)) = none := by
  obtain ⟨quote, after, hquote, hkey⟩ := keyParts?_long h rest 78
  have hkey : key? ((keyText key).toList ++ rest) = some ([""], quote :: after) := hkey
  simp only [pair?, hkey, Option.bind_eq_bind, Option.bind_some]
  rcases hquote with rfl | rfl <;> simp [after?]

theorem item?_pair {c : Char} (hc : isKeyStart c = true) (cs : List Char) :
    (item? (c :: cs) : Option (Item α × List Char)) =
      (pair? (value? maxDepth) (c :: cs)).bind fun ((key, v), rest) =>
        (lineEnd? rest).map fun rest => (.pair key v, rest) := by
  have hbracket := ne_of_test hc (d := '[') rfl
  unfold item?
  split
  · next heq => exact absurd (List.cons.inj heq).1 hbracket
  · next heq => exact absurd (List.cons.inj heq).1 hbracket
  · cases (pair? (value? maxDepth) (c :: cs) :
      Option ((List String × Written α) × List Char)) with
    | none => rfl
    | some p => cases h : lineEnd? p.2 <;> simp [h]

theorem isItemStart_of_isKeyStart {c : Char} (h : isKeyStart c = true) : isItemStart c = true := by
  have hne (d : Char) : isKeyStart d = false → c ≠ d := ne_of_test h
  simp [isItemStart, isSpace, hne ' ' rfl, hne '\t' rfl, hne '\n' rfl, hne '\r' rfl, hne '#' rfl]

/-- What reading a line with a key gives: nothing if the key takes several lines. -/
def onLine (key : String) (r : Option (Item α)) : Option (Item α) := if OnLine key then r else none

def pairOf (key : String) (r : Option (Toml α)) : Option (Item α) :=
  r.map fun v => .pair [key] (.plain v)

theorem reading_entry {key : String} {value : List Char} {r : Option (Toml α)}
    (hvalue : ReadsValue value r) :
    Reading ((keyText key).toList ++ (" = ".toList ++ value)) (onLine key (pairOf key r)) := by
  obtain ⟨c, cs, hcs, hc⟩ := exists_keyText key
  refine ⟨⟨c, _, by rw [hcs]; rfl, isItemStart_of_isKeyStart hc⟩, fun rest => ?_⟩
  by_cases h : OnLine key
  · have hpair := pair?_entry h hvalue rest
    rw [hcs, List.cons_append, List.cons_append] at hpair ⊢
    rw [item?_pair hc, hpair, onLine, if_pos h]
    cases r <;> rfl
  · have hpair := pair?_long (α := α) h ((" = ".toList ++ value) ++ '\n' :: rest)
    rw [← List.append_assoc, hcs, List.cons_append, List.cons_append] at hpair
    rw [hcs, List.cons_append, List.cons_append, item?_pair hc, hpair, onLine, if_neg h]
    rfl

/-! Heads. -/

theorem keyParts?_first {first : String} (h : isBare first = true) (fuel : Nat) (rest : List Char) :
    keyParts? (fuel + 1) (first.toList ++ '.' :: rest) =
      (keyParts? fuel rest).map fun (parts, rest) => (first :: parts, rest) := by
  have hkey : keyPart? ((keyText first).toList ++ '.' :: rest) = some (first, '.' :: rest) :=
    keyPart?_keyText (onLine_of_isBare h) (by simp [isKeyChar])
  have hspace := skipSpace_keyText first ('.' :: rest)
  rw [keyText, if_pos h] at hkey hspace
  rw [keyParts?, hspace, hkey]
  simp only [Option.bind_eq_bind, Option.bind_some, skipSpace_cons (c := '.') rfl]
  cases keyParts? fuel rest <;> rfl

theorem item?_head {c : Char} (hc : isKeyStart c = true) (cs : List Char) :
    (item? ('[' :: c :: cs) : Option (Item α × List Char)) =
      (key? (c :: cs)).bind fun (key, rest) => (after? ']' rest).bind fun rest =>
        (lineEnd? rest).map fun rest => (.head key, rest) := by
  have hbracket := ne_of_test hc (d := '[') rfl
  unfold item?
  split
  · next heq => exact absurd (List.cons.inj (List.cons.inj heq).2).1 hbracket
  · next heq =>
    obtain rfl := (List.cons.inj heq).2
    cases key? (c :: cs) with
    | none => rfl
    | some k =>
      cases ha : after? ']' k.2 with
      | none => simp [ha]
      | some rest => cases hl : lineEnd? rest <;> simp [ha, hl]
  · next heq => exact absurd rfl (heq (c :: cs))

theorem reading_of_key {t : List Char} {key : List String}
    (hstart : ∃ c cs, t = c :: cs ∧ isKeyStart c = true)
    (h : ∀ rest, key? (t ++ ']' :: rest) = some (key, ']' :: rest)) :
    Reading ('[' :: (t ++ [']'])) (some (.head key) : Option (Item α)) := by
  obtain ⟨c, cs, rfl, hc⟩ := hstart
  refine ⟨⟨'[', _, rfl, rfl⟩, fun rest => ?_⟩
  have hkey := h ('\n' :: rest)
  simp only [List.cons_append, List.append_assoc, List.nil_append] at hkey ⊢
  rw [item?_head hc, hkey]
  rfl

theorem reading_of_key_stop {t : List Char}
    (hstart : ∃ c cs, t = c :: cs ∧ isKeyStart c = true)
    (h : ∀ rest, ∃ key c after, key? (t ++ rest) = some (key, c :: after) ∧ c ≠ ']') :
    Reading ('[' :: (t ++ [']'])) (none : Option (Item α)) := by
  obtain ⟨c, cs, rfl, hc⟩ := hstart
  refine ⟨⟨'[', _, rfl, rfl⟩, fun rest => ?_⟩
  obtain ⟨key, d, after, hkey, hd⟩ := h (']' :: '\n' :: rest)
  simp only [List.cons_append, List.append_assoc, List.nil_append] at hkey ⊢
  rw [item?_head hc, hkey]
  simp [after?, hd]

theorem key?_keyText {key : String} (h : OnLine key) (rest : List Char) (fuel : Nat) :
    keyParts? (fuel + 1) ((keyText key).toList ++ ']' :: rest) = some ([key], ']' :: rest) :=
  keyParts?_last h rfl (skipSpace_cons rfl _) (by simp) fuel

theorem reading_head {key : String} (h : OnLine key) :
    Reading ('[' :: ((keyText key).toList ++ [']'])) (some (.head [key]) : Option (Item α)) :=
  reading_of_key (exists_keyText key) fun rest => key?_keyText h rest 78

theorem exists_inner {outer : String} (ho : isBare outer = true) (rest : List Char) :
    ∃ c cs, outer.toList ++ '.' :: rest = c :: cs ∧ isKeyStart c = true := by
  obtain ⟨c, cs, hcs, hc⟩ := exists_keyText outer
  rw [keyText, if_pos ho] at hcs
  exact ⟨c, _, by rw [hcs]; rfl, hc⟩

theorem reading_innerHead {outer : String} (ho : isBare outer = true) (key : String) :
    Reading ('[' :: (outer.toList ++ '.' :: (keyText key).toList ++ [']']))
      (onLine key (some (.head [outer, key])) : Option (Item α)) := by
  by_cases h : OnLine key
  · rw [onLine, if_pos h]
    refine reading_of_key (exists_inner ho _) fun rest => ?_
    have hfirst := keyParts?_first ho 78 ((keyText key).toList ++ ']' :: rest)
    rw [key?_keyText h rest 77] at hfirst
    rw [List.append_assoc]
    exact hfirst
  · rw [onLine, if_neg h]
    refine reading_of_key_stop (exists_inner ho _) fun rest => ?_
    obtain ⟨quote, after, hquote, hkey⟩ := keyParts?_long h rest 77
    have hfirst := keyParts?_first ho 78 ((keyText key).toList ++ rest)
    rw [hkey] at hfirst
    refine ⟨[outer, ""], quote, after, ?_, by rcases hquote with rfl | rfl <;> decide⟩
    rw [List.append_assoc]
    exact hfirst

/-! ## Texts -/

def IsGap (t : List Char) : Prop := t = [] ∨ ∃ cs, t = '#' :: cs ∧ ∀ c ∈ cs, isCommentChar c = true

/-- Lines that hold nothing, and what reading the other ones gives. -/
inductive Holds : List String → List (Option (Item α)) → Prop
  | nil : Holds [] []
  | gap {t : String} {ls : List String} {rs : List (Option (Item α))} (h : IsGap t.toList)
      (hls : Holds ls rs) : Holds (t :: ls) rs
  | item {t : String} {ls : List String} {r : Option (Item α)} {rs : List (Option (Item α))}
      (h : Reading t.toList r) (hls : Holds ls rs) : Holds (t :: ls) (r :: rs)

theorem Holds.append {ls ls' : List String} {rs rs' : List (Option (Item α))}
    (h : Holds ls rs) (h' : Holds ls' rs') : Holds (ls ++ ls') (rs ++ rs') := by
  induction h with
  | nil => exact h'
  | gap hgap hls ih => exact .gap hgap ih
  | item h hls ih => exact .item h ih

theorem isSpace_of_isItemStart {c : Char} (h : isItemStart c = true) : isSpace c = false := by
  simp [isSpace, ne_of_test h (d := ' ') rfl, ne_of_test h (d := '\t') rfl]

theorem skipComment_start {c : Char} (h : isItemStart c = true) (cs : List Char) :
    skipComment (c :: cs) = c :: cs := by
  unfold skipComment
  split
  · next heq => exact absurd (List.cons.inj heq).1 (ne_of_test h rfl)
  · rfl

theorem lineBreak?_start {c : Char} (h : isItemStart c = true) (cs : List Char) :
    lineBreak? (c :: cs) = none :=
  lineBreak?_of_ne (ne_of_test h rfl) (ne_of_test h rfl) cs

theorem skipLines_start {c : Char} (h : isItemStart c = true) (fuel : Nat) (cs : List Char) :
    skipLines fuel (c :: cs) = c :: cs := by
  cases fuel with
  | zero => rfl
  | succ fuel =>
    simp only [skipLines, skipSpace_cons (isSpace_of_isItemStart h), skipComment_start h,
      lineBreak?_start h]

theorem lineEnd?_start {c : Char} (h : isItemStart c = true) (cs : List Char) :
    lineEnd? (c :: cs) = none := by
  simp only [lineEnd?, skipSpace_cons (isSpace_of_isItemStart h), skipComment_start h,
    lineBreak?_start h]

theorem skipLines_gap {t : List Char} (h : IsGap t) (fuel : Nat) (rest : List Char) :
    skipLines (fuel + 1) (t ++ '\n' :: rest) = skipLines fuel rest := by
  rcases h with rfl | ⟨cs, rfl, hcs⟩
  · rfl
  · have hdrop := (takeWhile_append_stop ('\n' :: rest) hcs (by simp [isCommentChar, isLineChar])).2
    simp only [skipLines, List.cons_append, skipSpace_cons (c := '#') rfl, skipComment, hdrop]
    rfl

theorem length_skipComment_le (cs : List Char) : (skipComment cs).length ≤ cs.length := by
  unfold skipComment
  split
  · exact Nat.le_succ_of_le (List.dropWhile_sublist _).length_le
  · exact Nat.le_refl _

theorem length_lineBreak?_lt {cs rest : List Char} (h : lineBreak? cs = some rest) :
    rest.length < cs.length := by
  unfold lineBreak? at h
  split at h
  · cases h
    exact Nat.lt_succ_self _
  · cases h
    exact Nat.lt_succ_of_lt (Nat.lt_succ_self _)
  · cases h

/-- Fuel for all characters is enough to skip lines, and more makes no difference. -/
theorem skipLines_eq {m n : Nat} {cs : List Char} (hm : cs.length ≤ m) (hn : cs.length ≤ n) :
    skipLines m cs = skipLines n cs := by
  induction m generalizing n cs with
  | zero =>
    obtain rfl := List.eq_nil_of_length_eq_zero (Nat.le_zero.mp hm)
    cases n <;> rfl
  | succ m ih =>
    cases n with
    | zero =>
      obtain rfl := List.eq_nil_of_length_eq_zero (Nat.le_zero.mp hn)
      rfl
    | succ n =>
      simp only [skipLines]
      cases hrest : lineBreak? (skipComment (skipSpace cs)) with
      | none => rfl
      | some rest =>
        have hlt := length_lineBreak?_lt hrest
        have hcomment := length_skipComment_le (skipSpace cs)
        have hspace : (skipSpace cs).length ≤ cs.length :=
          (List.dropWhile_sublist _).length_le
        exact ih (by omega) (by omega)

theorem items_gap {t : List Char} (h : IsGap t) (fuel : Nat) (rest : List Char) :
    (items fuel (t ++ '\n' :: rest) : List (Placed α) × Option (List Char)) = items fuel rest := by
  cases fuel with
  | zero => rfl
  | succ fuel =>
    have hlength : (t ++ '\n' :: rest).length = t.length + rest.length + 1 := by
      simp
      omega
    have hskip : skipLines (t ++ '\n' :: rest).length (t ++ '\n' :: rest) =
        skipLines rest.length rest := by
      rw [hlength, skipLines_gap h]
      exact skipLines_eq (by omega) (Nat.le_refl _)
    rw [items.eq_def, items.eq_def]
    dsimp only
    rw [hskip]

theorem items_some {t : List Char} {item : Item α} (h : Reading t (some item)) (fuel : Nat)
    (rest : List Char) :
    (items (fuel + 1) (t ++ '\n' :: rest) : List (Placed α) × Option (List Char)) =
      (⟨t ++ '\n' :: rest, item⟩ :: (items (α := α) fuel rest).1,
        (items (α := α) fuel rest).2) := by
  obtain ⟨⟨c, cs, rfl, hc⟩, hread⟩ := h
  have hread := hread rest
  rw [List.cons_append] at hread ⊢
  rw [items.eq_def]
  simp only [skipLines_start hc, lineEnd?_start hc, hread, Option.map_some]

theorem items_none {t : List Char} (h : Reading t (none : Option (Item α))) (fuel : Nat)
    (rest : List Char) :
    (items (fuel + 1) (t ++ '\n' :: rest) : List (Placed α) × Option (List Char)) =
      ([], some (t ++ '\n' :: rest)) := by
  obtain ⟨⟨c, cs, rfl, hc⟩, hread⟩ := h
  have hread := hread rest
  rw [List.cons_append] at hread ⊢
  rw [items.eq_def]
  simp only [skipLines_start hc, lineEnd?_start hc, hread, Option.map_none]

def textOf (ls : List String) : String := String.join (ls.map (· ++ "\n"))

theorem toList_textOf_cons (t : String) (ls : List String) :
    (textOf (t :: ls)).toList = t.toList ++ '\n' :: (textOf ls).toList := by
  simp [textOf, String.join_cons]

def Agrees (found : List (Placed α) × Option (List Char)) (rs : List (Option (Item α))) : Prop :=
  (∀ its : List (Item α), rs = its.map some → found.1.map Placed.item = its ∧ found.2 = none) ∧
    (none ∈ rs → found.2.isSome = true)

/-- The items of a text are those of its lines, and it is read to its end if all lines can be
read. -/
theorem agrees_textOf {ls : List String} {rs : List (Option (Item α))} (h : Holds ls rs)
    {fuel : Nat} (hfuel : ls.length < fuel) : Agrees (items fuel (textOf ls).toList) rs := by
  induction h generalizing fuel with
  | nil =>
    obtain ⟨fuel, rfl⟩ := Nat.exists_eq_add_one_of_ne_zero (Nat.ne_zero_of_lt hfuel)
    refine ⟨fun its hits => ?_, fun h => nomatch h⟩
    obtain rfl := List.map_eq_nil_iff.mp hits.symm
    exact ⟨rfl, rfl⟩
  | @gap t ls rs hgap hls ih =>
    -- a gap is skipped with the next item, so it takes no fuel of its own
    rw [toList_textOf_cons, items_gap hgap]
    exact ih (Nat.lt_of_succ_lt hfuel)
  | @item t ls r rs hr hls ih =>
    obtain ⟨fuel, rfl⟩ := Nat.exists_eq_add_one_of_ne_zero (Nat.ne_zero_of_lt hfuel)
    obtain ⟨hall, hstop⟩ := ih (Nat.lt_of_succ_lt_succ hfuel)
    rw [toList_textOf_cons]
    cases r with
    | none =>
      rw [items_none hr]
      refine ⟨fun its hits => ?_, fun _ => rfl⟩
      cases its <;> cases hits
    | some item =>
      rw [items_some hr]
      refine ⟨fun its hits => ?_, fun h => hstop (by simpa using h)⟩
      cases its with
      | nil => cases hits
      | cons item' its =>
        obtain ⟨rfl, rfl⟩ : item = item' ∧ rs = its.map some := by simpa using hits
        obtain ⟨hitems, hend⟩ := hall its rfl
        exact ⟨congrArg (item :: ·) hitems, hend⟩

theorem length_le_textOf (ls : List String) : ls.length ≤ (textOf ls).toList.length := by
  induction ls with
  | nil => exact Nat.zero_le _
  | cons t ls ih =>
    rw [toList_textOf_cons, List.length_append, List.length_cons, List.length_cons]
    omega

section Parse

variable {ls : List String} (hmark : (textOf ls).toList.head? ≠ some byteOrderMark)

include hmark

theorem dropByteOrderMark_textOf : dropByteOrderMark (textOf ls).toList = (textOf ls).toList := by
  unfold dropByteOrderMark
  split
  · next c rest heq =>
    rw [heq] at hmark ⊢
    exact if_neg fun h => hmark (congrArg some h)
  · next heq => exact heq.symm

/-- A text whose lines can all be read is the table that their items make. -/
theorem parse_of_holds {its : List (Item α)} (h : Holds ls (its.map some)) :
    ∃ found : List (Placed α), found.map Placed.item = its ∧
      ∀ entries, tableOf found = .ok entries → parse (textOf ls) = .ok entries := by
  have hagrees := agrees_textOf h (Nat.lt_succ_of_le (length_le_textOf ls))
  obtain ⟨hitems, hstop⟩ := hagrees.1 its rfl
  refine ⟨_, hitems, fun entries hentries => ?_⟩
  simp only [parse, dropByteOrderMark_textOf hmark, hentries, hstop]

theorem parse_of_none_mem {rs : List (Option (Item α))} (h : Holds ls rs) (hnone : none ∈ rs) :
    ∃ fault, (parse (textOf ls) : Except Fault (Sorted (Toml α))) = .error fault := by
  have hstop := (agrees_textOf h (Nat.lt_succ_of_le (length_le_textOf ls))).2 hnone
  obtain ⟨unread, hunread⟩ := Option.isSome_iff_exists.mp hstop
  unfold parse
  simp only [dropByteOrderMark_textOf hmark, hunread]
  split
  · next h => cases h
  · exact ⟨_, rfl⟩
  · exact ⟨_, rfl⟩

end Parse

end Partitura.Toml
