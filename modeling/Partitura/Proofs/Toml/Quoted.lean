import Partitura.Proofs.Text.Pieces
import Partitura.Toml.Grammar

/-!
# Texts of TOML read back

Between quotes a character stands as it is or behind a backslash, and either way it is read as
itself. In the long forms the quotes of a text are told from those that end it by their number:
no more than two of them stand in a row. A text can be read in whatever form it is written. A key
can be read in the short forms only, since three quotes are an empty key and the start of another
text.
-/

namespace Partitura.Toml

/-! ## Single characters -/

theorem lineBreak?_of_ne {c : Char} (hn : c ≠ '\n') (hr : c ≠ '\r') (rest : List Char) :
    lineBreak? (c :: rest) = none := by
  unfold lineBreak?
  split
  · next heq => exact absurd (List.cons.inj heq).1 hn
  · next heq => exact absurd (List.cons.inj heq).1 hr
  · rfl

theorem lineBreak?_eq_none {c : Char} (rest : List Char) (h : isLineChar c = true) :
    lineBreak? (c :: rest) = none := by
  refine lineBreak?_of_ne ?_ ?_ rest <;>
  · rintro rfl
    exact absurd h (by decide)

inductive Spelling (c : Char) : List Char → Prop
  | plain (h : isLineChar c = true) (hslash : c ≠ '\\') (hquote : c ≠ '"') : Spelling c [c]
  | escape {e : List Char} (h : ∀ rest, escape? (e ++ rest) = some (c, rest))
      (hline : ∀ rest, afterContinuation? (e ++ rest) = none) : Spelling c ('\\' :: e)

theorem spelling_quote : Spelling '"' ['\\', '"'] :=
  .escape (e := ['"']) (fun _ => rfl) fun _ => rfl

theorem hexFour_control : ∀ n < 128, (hexFour n).toList.length = 4 ∧
    codePoint? (hexFour n).toList = some (Char.ofNat n) := by
  decide +kernel

theorem spelling_control {c : Char} (h : c.toNat < 128) :
    Spelling c ('\\' :: 'u' :: (hexFour c.toNat).toList) := by
  obtain ⟨hlength, hread⟩ := hexFour_control c.toNat h
  rw [Char.ofNat_toNat] at hread
  refine .escape (e := 'u' :: (hexFour c.toNat).toList) (fun rest => ?_) fun _ => rfl
  have htake : ((hexFour c.toNat).toList ++ rest).take 4 = (hexFour c.toNat).toList :=
    List.take_left' hlength
  have hdrop : ((hexFour c.toNat).toList ++ rest).drop 4 = rest := List.drop_left' hlength
  simp [escape?, numericEscape?, htake, hdrop, hlength, hread]

theorem spelling_escapedChar (keepsLines : Bool) {c : Char} (hquote : c ≠ '"')
    (hline : keepsLines = true → c ≠ '\n') : Spelling c (escapedChar keepsLines c).toList := by
  unfold escapedChar
  split
  · next h =>
    obtain rfl : c = Char.ofNat 8 := by rw [← h, Char.ofNat_toNat]
    exact .escape (e := ['b']) (fun _ => rfl) fun _ => rfl
  · split
    · next h =>
      subst h
      exact .escape (e := ['t']) (fun _ => rfl) fun _ => rfl
    · split
      · next h =>
        subst h
        cases keepsLines with
        | true => exact absurd rfl (hline rfl)
        | false => exact .escape (e := ['n']) (fun _ => rfl) fun _ => rfl
      · split
        · next h =>
          obtain rfl : c = Char.ofNat 12 := by rw [← h, Char.ofNat_toNat]
          exact .escape (e := ['f']) (fun _ => rfl) fun _ => rfl
        · split
          · next h =>
            subst h
            exact .escape (e := ['r']) (fun _ => rfl) fun _ => rfl
          · split
            · next h =>
              subst h
              exact .escape (e := ['\\']) (fun _ => rfl) fun _ => rfl
            · next hslash =>
              split
              · next h =>
                have hspelling := spelling_control (c := c) (by omega)
                simpa using hspelling
              · next h =>
                rw [Char.toString_eq_singleton, String.toList_singleton]
                exact .plain (by simp [isLineChar]; omega) hslash hquote

theorem Spelling.head_ne_quote {c : Char} {e : List Char} (h : Spelling c e) :
    ∃ d ds, e = d :: ds ∧ d ≠ '"' ∧ isLineChar d = true := by
  cases h with
  | plain h hslash hquote => exact ⟨c, [], rfl, hquote, h⟩
  | escape h hline => exact ⟨'\\', _, rfl, by decide, by decide⟩

theorem Spelling.length_pos {c : Char} {e : List Char} (h : Spelling c e) : 0 < e.length := by
  obtain ⟨d, ds, rfl, -⟩ := h.head_ne_quote
  exact Nat.succ_pos _

/-! ## Short forms -/

theorem basicText?_spelling {c : Char} {e : List Char} (h : Spelling c e) (fuel : Nat)
    (rest : List Char) : basicText? (fuel + 1) (e ++ rest) =
      (basicText? fuel rest).map fun (text, rest) => (c :: text, rest) := by
  cases h with
  | plain h hslash hquote =>
    simp only [List.cons_append, List.nil_append, basicText?, h, hslash, hquote, if_false, if_true]
    cases basicText? fuel rest <;> rfl
  | escape h hline =>
    have hslash : '\\' ≠ '"' := by decide
    simp only [List.cons_append, basicText?, h, hslash, if_false, if_true, Option.bind_eq_bind,
      Option.bind_some]
    cases basicText? fuel rest <;> rfl

theorem exists_spelling (c : Char) (cs : List Char) : ∃ e, Spelling c e ∧
    (escaped false 0 0 (c :: cs)).toList = e ++ (escaped false 0 0 cs).toList := by
  by_cases hc : c = '"'
  · subst hc
    exact ⟨_, spelling_quote, by simp [escaped]⟩
  · exact ⟨_, spelling_escapedChar false hc (by simp), by simp [escaped, hc]⟩

theorem basicText?_escaped (cs rest : List Char) {fuel : Nat} (h : cs.length < fuel) :
    basicText? fuel ((escaped false 0 0 cs).toList ++ '"' :: rest) = some (cs, rest) := by
  induction cs generalizing fuel with
  | nil =>
    obtain ⟨fuel, rfl⟩ := Nat.exists_eq_add_of_lt h
    simp [escaped, basicText?]
  | cons c cs ih =>
    obtain ⟨fuel, rfl⟩ := Nat.exists_eq_add_of_lt h
    obtain ⟨e, he, hescaped⟩ := exists_spelling c cs
    rw [hescaped, List.append_assoc, basicText?_spelling he, ih (by simp; omega)]
    rfl

theorem literalText?_append {cs : List Char} (h : ∀ c ∈ cs, isLineChar c = true ∧ c ≠ '\'')
    (rest : List Char) : literalText? (cs ++ '\'' :: rest) = some (cs, rest) := by
  obtain ⟨htake, hdrop⟩ := takeWhile_append_stop (p := (· != '\'')) ('\'' :: rest)
    (fun c hc => bne_iff_ne.mpr (h c hc).2) (by simp)
  have hall : cs.all isLineChar = true := List.all_eq_true.mpr fun c hc => (h c hc).1
  simp only [literalText?, hdrop, htake, hall, if_true]

/-! ## Long forms -/

theorem add_length_le_longestRow (quote : Char) (row : Nat) (cs : List Char) :
    row + (cs.takeWhile (· == quote)).length ≤ longestRow quote row cs := by
  induction cs generalizing row with
  | nil => simp [longestRow]
  | cons c cs ih =>
    unfold longestRow
    by_cases hc : c = quote
    · have hrow := ih (row + 1)
      simp only [hc, if_true, beq_self_eq_true, List.takeWhile_cons_of_pos, List.length_cons]
      omega
    · simp [hc]

theorem longestRow_mono (quote : Char) {m n : Nat} (h : m ≤ n) (cs : List Char) :
    longestRow quote m cs ≤ longestRow quote n cs := by
  induction cs generalizing m n with
  | nil => exact h
  | cons c cs ih =>
    unfold longestRow
    split
    · exact ih (by omega)
    · omega

theorem longestRow_tail (quote : Char) (row : Nat) (c : Char) (cs : List Char) :
    longestRow quote 0 cs ≤ longestRow quote row (c :: cs) := by
  rw [longestRow]
  split
  · exact longestRow_mono quote (by omega) cs
  · exact Nat.le_max_right ..

theorem closing?_body {quote : Char} {rest : List Char} (hrest : rest.head? ≠ some quote)
    (body : List Char) (h : (body.takeWhile (· == quote)).length ≤ 2) :
    closing? quote (body ++ quote :: quote :: quote :: rest) =
      if body.all (· == quote) then some (body, rest) else none := by
  split
  · next hquotes =>
    have hall : ∀ c ∈ body, c = quote := fun c hc => beq_iff_eq.mp (List.all_eq_true.mp hquotes c hc)
    have hpos : ∀ c ∈ body ++ [quote, quote, quote], (c == quote) = true := by
      intro c hc
      rcases List.mem_append.mp hc with hc | hc
      · exact beq_iff_eq.mpr (hall c hc)
      · simpa using hc
    have hstop : ∀ c ∈ rest.head?, (c == quote) = false := by
      intro c hc
      rw [beq_eq_false_iff_ne]
      rintro rfl
      exact hrest hc
    have htake := (takeWhile_append_stop rest hpos hstop).1
    rw [takeWhile_eq_self fun c hc => beq_iff_eq.mpr (hall c hc)] at h
    have hsame : body = List.replicate body.length quote := List.eq_replicate_iff.mpr ⟨rfl, hall⟩
    have hmin : min (body.length + 3 - 3) 2 = body.length := by omega
    have hcount : ¬ body.length + 3 < 3 := by omega
    simp only [List.append_assoc, List.cons_append, List.nil_append] at htake
    simp only [closing?, htake, List.length_append, List.length_cons, List.length_nil, Nat.zero_add,
      Nat.reduceAdd, hmin, hcount, if_false, ← hsame]
    have hdrop : (body ++ [quote, quote, quote] ++ rest).drop (body.length + 3) = rest :=
      List.drop_left' (by simp)
    simp only [List.append_assoc, List.cons_append, List.nil_append] at hdrop
    rw [hdrop]
  · next hsome =>
    have htake : (body ++ quote :: quote :: quote :: rest).takeWhile (· == quote) =
        body.takeWhile (· == quote) := by
      rw [List.takeWhile_append, if_neg]
      intro hlength
      refine hsome (List.all_eq_true.mpr fun c hc => ?_)
      rw [← (List.takeWhile_prefix (· == quote)).eq_of_length hlength] at hc
      exact List.all_eq_true.mp List.all_takeWhile c hc
    simp only [closing?, htake]
    rw [if_pos (by omega)]

theorem longLiteralText?_append {rest : List Char} (hrest : rest.head? ≠ some '\'')
    {cs : List Char} (h : ∀ c ∈ cs, isLineChar c = true ∨ c = '\n')
    (hrow : longestRow '\'' 0 cs ≤ 2) {fuel : Nat} (hfuel : cs.length < fuel) :
    longLiteralText? fuel (cs ++ '\'' :: '\'' :: '\'' :: rest) = some (cs, rest) := by
  induction cs generalizing fuel with
  | nil =>
    obtain ⟨fuel, rfl⟩ := Nat.exists_eq_add_one_of_ne_zero (Nat.ne_zero_of_lt hfuel)
    rw [longLiteralText?.eq_def]
    dsimp only
    rw [closing?_body hrest [] (by simp)]
    simp
  | cons c cs ih =>
    obtain ⟨fuel, rfl⟩ := Nat.exists_eq_add_one_of_ne_zero (Nat.ne_zero_of_lt hfuel)
    have hread := ih (fun d hd => h d (List.mem_cons_of_mem c hd))
      (Nat.le_trans (longestRow_tail '\'' 0 c cs) hrow) (Nat.lt_of_succ_lt_succ hfuel)
    have hrun := Nat.le_trans (add_length_le_longestRow '\'' 0 (c :: cs)) hrow
    rw [longLiteralText?.eq_def]
    dsimp only
    rw [closing?_body hrest (c :: cs) (by omega)]
    by_cases hall : (c :: cs).all (· == '\'') = true
    · rw [if_pos hall]
    · rw [if_neg hall, List.cons_append]
      rcases h c List.mem_cons_self with hc | rfl
      · simp [lineBreak?_eq_none _ hc, hc, hread]
      · simp [lineBreak?, hread]

/-! The escaped form. -/

abbrev longBody (row : Nat) (cs : List Char) : List Char := (escaped true 2 row cs).toList

inductive LongSpelling (row : Nat) (c : Char) (cs : List Char) : Prop
  | quote (h : c = '"') (hrow : row < 2)
      (hbody : longBody row (c :: cs) = '"' :: longBody (row + 1) cs)
  | line (h : c = '\n') (hbody : longBody row (c :: cs) = '\n' :: longBody 0 cs)
  | spelled {e : List Char} (h : Spelling c e) (hbody : longBody row (c :: cs) = e ++ longBody 0 cs)

theorem longSpelling (row : Nat) (c : Char) (cs : List Char) : LongSpelling row c cs := by
  by_cases hquote : c = '"'
  · subst hquote
    by_cases hrow : row < 2
    · exact .quote rfl hrow (by simp [longBody, escaped, hrow])
    · exact .spelled spelling_quote (by simp [longBody, escaped, hrow])
  · by_cases hline : c = '\n'
    · subst hline
      exact .line rfl (by simp [longBody, escaped, escapedChar])
    · exact .spelled (spelling_escapedChar true hquote fun _ => hline)
        (by simp [longBody, escaped, hquote])

theorem add_length_longBody (cs : List Char) {row : Nat} (h : row ≤ 2) :
    row + ((longBody row cs).takeWhile (· == '"')).length ≤ 2 := by
  induction cs generalizing row with
  | nil => simpa [longBody, escaped] using h
  | cons c cs ih =>
    cases longSpelling row c cs with
    | quote hc hrow hbody =>
      have hrest : row + 1 + ((longBody (row + 1) cs).takeWhile (· == '"')).length ≤ 2 := ih hrow
      rw [hbody]
      simp only [List.takeWhile_cons, beq_self_eq_true, if_true, List.length_cons]
      omega
    | line hc hbody =>
      rw [hbody]
      simpa using h
    | spelled hc hbody =>
      obtain ⟨d, ds, rfl, hd, -⟩ := hc.head_ne_quote
      rw [hbody]
      simpa [hd] using h

theorem eq_of_longBody_quotes {cs : List Char} {row : Nat} (h : ∀ c ∈ longBody row cs, c = '"') :
    longBody row cs = cs := by
  induction cs generalizing row with
  | nil => simp [longBody, escaped]
  | cons c cs ih =>
    cases longSpelling row c cs with
    | quote hc hrow hbody =>
      rw [hbody] at h ⊢
      rw [hc, ih fun d hd => h d (List.mem_cons_of_mem _ hd)]
    | line hc hbody =>
      rw [hbody] at h
      exact absurd (h '\n' List.mem_cons_self) (by decide)
    | spelled hc hbody =>
      obtain ⟨d, ds, rfl, hd, -⟩ := hc.head_ne_quote
      rw [hbody] at h
      exact absurd (h d List.mem_cons_self) hd

theorem longBasicText?_longBody {rest : List Char} (hrest : rest.head? ≠ some '"')
    (cs : List Char) {row : Nat} (hrow : row ≤ 2) {fuel : Nat} (hfuel : cs.length < fuel) :
    longBasicText? fuel (longBody row cs ++ '"' :: '"' :: '"' :: rest) = some (cs, rest) := by
  induction cs generalizing row fuel with
  | nil =>
    obtain ⟨fuel, rfl⟩ := Nat.exists_eq_add_one_of_ne_zero (Nat.ne_zero_of_lt hfuel)
    rw [longBasicText?.eq_def]
    dsimp only
    rw [closing?_body hrest _ (by simp [longBody, escaped])]
    simp [longBody, escaped]
  | cons c cs ih =>
    obtain ⟨fuel, rfl⟩ := Nat.exists_eq_add_one_of_ne_zero (Nat.ne_zero_of_lt hfuel)
    have hrun := add_length_longBody (c :: cs) hrow
    have hread {row : Nat} (h : row ≤ 2) := ih h (Nat.lt_of_succ_lt_succ hfuel)
    rw [longBasicText?.eq_def]
    dsimp only
    rw [closing?_body hrest _ (by omega)]
    by_cases hall : (longBody row (c :: cs)).all (· == '"') = true
    · have hquotes : ∀ d ∈ longBody row (c :: cs), d = '"' :=
        fun d hd => beq_iff_eq.mp (List.all_eq_true.mp hall d hd)
      rw [if_pos hall, eq_of_longBody_quotes hquotes]
    · rw [if_neg hall]
      dsimp only
      cases longSpelling row c cs with
      | quote hc hrow' hbody =>
        subst hc
        rw [hbody]
        simp [lineBreak?, isLineChar, hread hrow']
      | line hc hbody =>
        subst hc
        rw [hbody]
        simp [lineBreak?, hread]
      | spelled hc hbody =>
        rw [hbody, List.append_assoc]
        cases hc with
        | plain h hslash hquote =>
          simp [hslash, lineBreak?_eq_none _ h, h, hread]
        | escape h hline =>
          simp [h, hline, hread]

/-! ## The form of a text -/

theorem length_le_escaped (cs : List Char) : cs.length ≤ (escaped false 0 0 cs).toList.length := by
  induction cs with
  | nil => simp
  | cons c cs ih =>
    obtain ⟨e, he, hescaped⟩ := exists_spelling c cs
    have hpos := he.length_pos
    rw [hescaped, List.length_append, List.length_cons]
    omega

theorem length_le_longBody (cs : List Char) (row : Nat) : cs.length ≤ (longBody row cs).length := by
  induction cs generalizing row with
  | nil => simp
  | cons c cs ih =>
    cases longSpelling row c cs with
    | quote hc hrow hbody =>
      have hrest := ih (row + 1)
      rw [hbody, List.length_cons, List.length_cons]
      omega
    | line hc hbody =>
      have hrest := ih 0
      rw [hbody, List.length_cons, List.length_cons]
      omega
    | spelled hc hbody =>
      have hrest := ih 0
      have hpos := hc.length_pos
      rw [hbody, List.length_append, List.length_cons]
      omega

theorem shortText?_basic (cs rest : List Char) :
    shortText? ('"' :: ((escaped false 0 0 cs).toList ++ '"' :: rest)) =
      some (String.ofList cs, rest) := by
  have hlength := length_le_escaped cs
  simp only [shortText?, List.length_append, List.length_cons]
  rw [basicText?_escaped cs rest (by omega)]
  rfl

theorem shortText?_literal {cs : List Char} (h : ∀ c ∈ cs, isLineChar c = true ∧ c ≠ '\'')
    (rest : List Char) :
    shortText? ('\'' :: (cs ++ '\'' :: rest)) = some (String.ofList cs, rest) := by
  simp only [shortText?]
  rw [literalText?_append h]
  rfl

theorem not_isControl {cs : List Char} (h : cs.any isControl = false) :
    ∀ c ∈ cs, isLineChar c = true ∨ c = '\n' := by
  intro c hc
  have hcontrol : isControl c = false := List.any_eq_false.mp h c hc |> Bool.eq_false_iff.mpr
  by_cases htab : c = '\t'
  · exact .inl (by simp [htab, isLineChar])
  · by_cases hline : c = '\n'
    · exact .inr hline
    · refine .inl ?_
      simp [isControl, htab, hline] at hcontrol
      simp [isLineChar]
      omega

theorem ne_of_longestRow_eq_zero {quote : Char} {cs : List Char} (h : longestRow quote 0 cs = 0) :
    ∀ c ∈ cs, c ≠ quote := by
  induction cs with
  | nil => nofun
  | cons d cs ih =>
    unfold longestRow at h
    split at h
    · have hrow := add_length_le_longestRow quote (0 + 1) cs
      omega
    · next hd =>
      intro c hc
      rcases List.mem_cons.mp hc with rfl | hc
      · exact hd
      · exact ih (by omega) c hc

theorem ofTraits_literal {t : Traits} (h : Form.ofTraits t = .literal) :
    t.hasControl = false ∧ t.hasLineBreak = false ∧ t.singleQuotes = 0 := by
  unfold Form.ofTraits at h
  split_ifs at h with h₁ h₂
  simpa [and_assoc] using h₂

theorem isLineChar_of_literal {cs : List Char} (h : Form.ofTraits (Traits.ofText cs) = .literal) :
    ∀ c ∈ cs, isLineChar c = true ∧ c ≠ '\'' := by
  obtain ⟨hcontrol, hline, hquotes⟩ := ofTraits_literal h
  refine fun c hc => ⟨(not_isControl hcontrol c hc).resolve_right ?_,
    ne_of_longestRow_eq_zero hquotes c hc⟩
  rintro rfl
  simp [Traits.ofText, hc] at hline

theorem ofTraits_longLiteral {t : Traits} (h : Form.ofTraits t = .longLiteral) :
    t.hasControl = false ∧ t.singleQuotes ≤ 2 := by
  unfold Form.ofTraits at h
  split_ifs at h with h₁ h₂ h₃ h₄
  simpa using h₄

theorem text?_of_short {cs : List Char}
    (h : ∀ rest, cs ≠ '"' :: '"' :: '"' :: rest ∧ cs ≠ '\'' :: '\'' :: '\'' :: rest) :
    text? cs = shortText? cs := by
  unfold text?
  split
  · exact absurd rfl (h _).1
  · exact absurd rfl (h _).2
  · rfl

section Written

variable {rest : List Char}

theorem text?_basic (hrest : rest.head? ≠ some '"') (cs : List Char) :
    text? ('"' :: ((escaped false 0 0 cs).toList ++ '"' :: rest)) =
      some (String.ofList cs, rest) := by
  rw [text?_of_short, shortText?_basic]
  intro after
  refine ⟨fun heq => ?_, by simp⟩
  cases cs with
  | nil =>
    simp [escaped] at heq
    simp [heq] at hrest
  | cons c cs =>
    obtain ⟨e, he, hescaped⟩ := exists_spelling c cs
    obtain ⟨d, ds, rfl, hd, -⟩ := he.head_ne_quote
    simp [hescaped] at heq
    exact hd heq.1

theorem text?_literal (hrest : rest.head? ≠ some '\'') {cs : List Char}
    (h : ∀ c ∈ cs, isLineChar c = true ∧ c ≠ '\'') :
    text? ('\'' :: (cs ++ '\'' :: rest)) = some (String.ofList cs, rest) := by
  rw [text?_of_short, shortText?_literal h]
  intro after
  refine ⟨by simp, fun heq => ?_⟩
  cases cs with
  | nil =>
    simp at heq
    simp [heq] at hrest
  | cons c cs =>
    simp at heq
    exact (h c List.mem_cons_self).2 heq.1

theorem dropLineBreak_written {body : List Char} (breaks : Bool)
    (h : breaks = false → ∀ c ∈ body.head?, isLineChar c = true) (quote : Char)
    (hquote : isLineChar quote = true) (after : List Char) :
    dropLineBreak ((if breaks then "\n" else "").toList ++ (body ++ quote :: after)) =
      body ++ quote :: after := by
  cases breaks with
  | true => rfl
  | false =>
    cases body with
    | nil => simp [dropLineBreak, lineBreak?_eq_none _ hquote]
    | cons c body => simp [dropLineBreak, lineBreak?_eq_none _ (h rfl c rfl)]

theorem text?_longBasic (hrest : rest.head? ≠ some '"') (cs : List Char) :
    text? ('"' :: '"' :: '"' :: ((if cs.contains '\n' then "\n" else "").toList ++
      (longBody 0 cs ++ '"' :: '"' :: '"' :: rest))) = some (String.ofList cs, rest) := by
  have hhead : cs.contains '\n' = false → ∀ c ∈ (longBody 0 cs).head?, isLineChar c = true := by
    intro hline c hc
    cases cs with
    | nil => simp [longBody, escaped] at hc
    | cons d cs =>
      cases longSpelling 0 d cs with
      | quote hd hrow hbody =>
        rw [hbody] at hc
        obtain rfl : '"' = c := Option.some.inj hc
        rfl
      | line hd hbody => simp [hd] at hline
      | spelled hd hbody =>
        obtain ⟨e, es, rfl, -, he⟩ := hd.head_ne_quote
        rw [hbody] at hc
        obtain rfl : e = c := Option.some.inj hc
        exact he
  have hlength := length_le_longBody cs 0
  simp only [text?, dropLineBreak_written _ hhead '"' rfl, List.length_append]
  rw [longBasicText?_longBody hrest cs (by omega) (by omega)]
  rfl

theorem text?_longLiteral (hrest : rest.head? ≠ some '\'') {cs : List Char}
    (h : ∀ c ∈ cs, isLineChar c = true ∨ c = '\n') (hrow : longestRow '\'' 0 cs ≤ 2) :
    text? ('\'' :: '\'' :: '\'' :: ((if cs.contains '\n' then "\n" else "").toList ++
      (cs ++ '\'' :: '\'' :: '\'' :: rest))) = some (String.ofList cs, rest) := by
  have hhead : cs.contains '\n' = false → ∀ c ∈ cs.head?, isLineChar c = true := by
    intro hline c hc
    have hmem := List.mem_of_mem_head? hc
    refine (h c hmem).resolve_right ?_
    rintro rfl
    simp [hmem] at hline
  simp only [text?, dropLineBreak_written _ hhead '\'' rfl, List.length_append]
  rw [longLiteralText?_append hrest h hrow (by omega)]
  rfl

/-- A text is read as it was written, whatever its form, where no further quote follows it. -/
theorem text?_quoted (hrest : rest.head? ≠ some '"' ∧ rest.head? ≠ some '\'') (s : String) :
    text? ((quoted s).toList ++ rest) = some (s, rest) := by
  have hs := String.ofList_toList (s := s)
  unfold quoted
  dsimp only
  cases hform : Form.ofTraits (Traits.ofText s.toList) with
  | basic =>
    have hread := text?_basic hrest.1 s.toList
    simpa [Form.quotes, Form.isLong, Form.body, hs] using hread
  | literal =>
    have hread := text?_literal hrest.2 (isLineChar_of_literal hform)
    simpa [Form.quotes, Form.isLong, Form.body, hs] using hread
  | longBasic =>
    have hread := text?_longBasic hrest.1 s.toList
    simpa [Form.quotes, Form.isLong, Form.body, hs, Traits.ofText] using hread
  | longLiteral =>
    obtain ⟨hcontrol, hquotes⟩ := ofTraits_longLiteral hform
    have hread := text?_longLiteral hrest.2 (not_isControl hcontrol) hquotes
    simpa [Form.quotes, Form.isLong, Form.body, hs, Traits.ofText] using hread

/-! ## Keys -/

def OnLine (key : String) : Prop := (Form.ofTraits (Traits.ofText key.toList)).isLong = false

instance (key : String) : Decidable (OnLine key) := inferInstanceAs (Decidable (_ = _))

theorem longestRow_eq_zero {quote : Char} {cs : List Char} (h : ∀ c ∈ cs, c ≠ quote) :
    longestRow quote 0 cs = 0 := by
  induction cs with
  | nil => rfl
  | cons c cs ih =>
    rw [longestRow, if_neg (h c List.mem_cons_self), ih fun d hd => h d (List.mem_cons_of_mem c hd)]
    rfl

theorem isControl_of_isKeyChar {c : Char} (h : isKeyChar c = true) : isControl c = false := by
  have hrange : 0x1F < c.toNat ∧ c.toNat < 0x7F := by
    delta isKeyChar Char.isAlphanum Char.isAlpha Char.isUpper Char.isLower Char.isDigit at h
    simp only [Bool.or_eq_true, Bool.and_eq_true, decide_eq_true_eq, beq_iff_eq, ge_iff_le,
      UInt32.le_iff_toNat_le] at h
    rcases h with ((((h | h) | h) | rfl) | rfl)
    · exact ⟨Nat.lt_of_lt_of_le (by decide) h.1, Nat.lt_of_le_of_lt h.2 (by decide)⟩
    · exact ⟨Nat.lt_of_lt_of_le (by decide) h.1, Nat.lt_of_le_of_lt h.2 (by decide)⟩
    · exact ⟨Nat.lt_of_lt_of_le (by decide) h.1, Nat.lt_of_le_of_lt h.2 (by decide)⟩
    · decide
    · decide
  simp [isControl]
  omega

theorem isBare_iff {key : String} :
    isBare key = true ↔ key.toList ≠ [] ∧ ∀ c ∈ key.toList, isKeyChar c = true := by
  simp [isBare]

theorem onLine_of_isBare {key : String} (h : isBare key = true) : OnLine key := by
  obtain ⟨-, hchars⟩ := isBare_iff.mp h
  have hcontrol : key.toList.any isControl = false :=
    List.any_eq_false.mpr fun c hc => Bool.eq_false_iff.mp (isControl_of_isKeyChar (hchars c hc))
  have hne (d : Char) (hd : isKeyChar d = false) : ∀ c ∈ key.toList, c ≠ d :=
    fun c hc => ne_of_test (hchars c hc) hd
  have hnot (d : Char) (hd : isKeyChar d = false) : d ∉ key.toList := fun h => hne d hd d h rfl
  have hbasic : Form.ofTraits (Traits.ofText key.toList) = .basic := by
    simp [Form.ofTraits, Traits.ofText, hcontrol, hnot '\\' rfl, hnot '\n' rfl,
      longestRow_eq_zero (hne '"' rfl)]
  rw [OnLine, hbasic]
  rfl

theorem keyPart?_long {quote : Char} (h : quote = '"' ∨ quote = '\'') (after : List Char) :
    keyPart? (quote :: quote :: quote :: after) = some ("", quote :: after) := by
  rcases h with rfl | rfl <;> rfl

theorem keyText_long {key : String} (h : ¬ OnLine key) : ∃ quote after,
    (quote = '"' ∨ quote = '\'') ∧ (keyText key).toList = quote :: quote :: quote :: after := by
  have hbare : isBare key = false := Bool.eq_false_iff.mpr fun hbare => h (onLine_of_isBare hbare)
  have hlong : (Form.ofTraits (Traits.ofText key.toList)).isLong = true :=
    Bool.eq_true_of_not_eq_false h
  rw [keyText, hbare, if_neg Bool.false_ne_true, quoted]
  cases hform : Form.ofTraits (Traits.ofText key.toList) with
  | basic => simp [hform, Form.isLong] at hlong
  | literal => simp [hform, Form.isLong] at hlong
  | longBasic => exact ⟨'"', _, .inl rfl, by simp [Form.quotes]; rfl⟩
  | longLiteral => exact ⟨'\'', _, .inr rfl, by simp [Form.quotes]; rfl⟩

theorem keyPart?_bare {key : String} (h : isBare key = true)
    (hrest : ∀ c ∈ rest.head?, isKeyChar c = false) :
    keyPart? (key.toList ++ rest) = some (key, rest) := by
  obtain ⟨hne, hchars⟩ := isBare_iff.mp h
  obtain ⟨htake, hdrop⟩ := takeWhile_append_stop rest hchars hrest
  have hshort : shortText? (key.toList ++ rest) = none := by
    obtain ⟨c, cs, hcs⟩ := List.exists_cons_of_ne_nil hne
    have hc := hchars c (hcs ▸ List.mem_cons_self)
    unfold shortText?
    split
    · next heq =>
      rw [hcs] at heq
      exact absurd (List.cons.inj heq).1 (ne_of_test hc rfl)
    · next heq =>
      rw [hcs] at heq
      exact absurd (List.cons.inj heq).1 (ne_of_test hc rfl)
    · rfl
  simp only [keyPart?, hshort, htake, hdrop]
  rw [if_neg (by simpa using hne), String.ofList_toList]

theorem keyPart?_keyText {key : String} (h : OnLine key)
    (hrest : ∀ c ∈ rest.head?, isKeyChar c = false) :
    keyPart? ((keyText key).toList ++ rest) = some (key, rest) := by
  have hs := String.ofList_toList (s := key)
  unfold keyText
  split
  · next hbare => exact keyPart?_bare hbare hrest
  · unfold quoted
    dsimp only
    cases hform : Form.ofTraits (Traits.ofText key.toList) with
    | basic =>
      have hread := shortText?_basic key.toList rest
      simp [Form.quotes, Form.isLong, Form.body, keyPart?, hread, hs]
    | literal =>
      have hread := shortText?_literal (isLineChar_of_literal hform) rest
      simp [Form.quotes, Form.isLong, Form.body, keyPart?, hread, hs]
    | longBasic => simp [OnLine, hform, Form.isLong] at h
    | longLiteral => simp [OnLine, hform, Form.isLong] at h

end Written

end Partitura.Toml
