import Partitura.Json.Decode
import Partitura.Proofs.Json.WellFormed
import Partitura.Proofs.Sorted

/-!
# What readers return, and what they accept

A property of records that each field keeps holds of every record that is read,
whether from an object or from a list. In the other direction, a list of fields
that fills a draft step by step is read as the record that the last draft makes.
-/

namespace Partitura.Json

variable {α β γ ρ : Type}

/-! Results. -/

theorem bind_ok {ε : Type} {x : Except ε β} {f : β → Except ε γ} {c : γ}
    (h : x.bind f = .ok c) : ∃ b, x = .ok b ∧ f b = .ok c := by
  cases x with
  | error e => cases h
  | ok b => exact ⟨b, rfl, h⟩

theorem bind_error_iff {ε : Type} {x : Except ε β} {f : β → Except ε γ} {e : ε} :
    x.bind f = .error e ↔ x = .error e ∨ ∃ b, x = .ok b ∧ f b = .error e := by
  cases x <;> simp [Except.bind]

theorem map_ok {ε : Type} {f : β → γ} {x : Except ε β} {c : γ}
    (h : f <$> x = .ok c) : ∃ b, x = .ok b ∧ f b = c := by
  cases x with
  | error e => cases h
  | ok b =>
    cases h
    exact ⟨b, rfl, rfl⟩

theorem toOption_eq_some {x : Except DecodeError β} {b : β} (h : x.toOption = some b) :
    x = .ok b := by
  cases x with
  | error e => cases h
  | ok c =>
    cases h
    rfl

theorem mapM_map {ε : Type} {write : β → γ} {read : γ → Except ε β} {items : List β}
    (h : ∀ x ∈ items, read (write x) = .ok x) : (items.map write).mapM read = .ok items := by
  induction items with
  | nil => rfl
  | cons x rest ih =>
    rw [List.map_cons, List.mapM_cons, h x (List.mem_cons_self ..),
      ih fun y hy => h y (List.mem_cons_of_mem _ hy)]
    rfl

theorem mapM_mem_iff {ε : Type} {read : γ → Except ε β} {items : List γ} {vs : List β}
    (h : items.mapM read = .ok vs) {v : β} : v ∈ vs ↔ ∃ j ∈ items, read j = .ok v := by
  induction items generalizing vs with
  | nil =>
    cases h
    simp
  | cons j rest ih =>
    rw [List.mapM_cons] at h
    obtain ⟨b, hb, h⟩ := bind_ok h
    obtain ⟨bs, hbs, h⟩ := bind_ok h
    cases h
    simp [hb, ih hbs, eq_comm]

theorem mapM_ok {ε : Type} {read : γ → Except ε β} {items : List γ} {vs : List β}
    (h : items.mapM read = .ok vs) : ∀ v ∈ vs, ∃ j ∈ items, read j = .ok v :=
  fun _ => (mapM_mem_iff h).mp

theorem mapM_reads {ε : Type} {read : γ → Except ε β} {items : List γ} {vs : List β}
    (h : items.mapM read = .ok vs) : ∀ j ∈ items, ∃ v, read j = .ok v := by
  induction items generalizing vs with
  | nil => exact fun _ hj => nomatch hj
  | cons j rest ih =>
    rw [List.mapM_cons] at h
    obtain ⟨b, hb, h⟩ := bind_ok h
    obtain ⟨bs, hbs, -⟩ := bind_ok h
    exact List.forall_mem_cons.mpr ⟨⟨b, hb⟩, ih hbs⟩

theorem mapM_map_eq {ε δ : Type} {read : γ → Except ε β} {items : List γ} {vs : List β} {f : γ → δ}
    {g : β → δ} (hread : ∀ j v, read j = .ok v → g v = f j) (h : items.mapM read = .ok vs) :
    vs.map g = items.map f := by
  induction items generalizing vs with
  | nil =>
    cases h
    rfl
  | cons j rest ih =>
    rw [List.mapM_cons] at h
    obtain ⟨b, hb, h⟩ := bind_ok h
    obtain ⟨bs, hbs, h⟩ := bind_ok h
    cases h
    rw [List.map_cons, List.map_cons, hread j b hb, ih hbs]

theorem need_ok {name : String} {v : Option β} {x : β} (h : need name v = .ok x) :
    v = some x := by
  cases v with
  | none => cases h
  | some y =>
    cases h
    rfl

/-! A value of two forms. -/

section TwoForms

variable {type : String} {first second : Json α → Except DecodeError β} {j : Json α} {v : β}

theorem asOneOf_first (h : first j = .ok v) : asOneOf type [first, second] j = .ok v := by
  simp [asOneOf, h, Except.toOption]

theorem asOneOf_second {e : DecodeError} (he : first j = .error e) (h : second j = .ok v) :
    asOneOf type [first, second] j = .ok v := by
  simp [asOneOf, he, h, Except.toOption]

theorem asOneOf_ok (h : asOneOf type [first, second] j = .ok v) :
    first j = .ok v ∨ second j = .ok v := by
  cases hf : first j with
  | ok w =>
    rw [asOneOf_first hf] at h
    exact .inl h
  | error e =>
    cases hs : second j with
    | ok w =>
      rw [asOneOf_second hf hs] at h
      exact .inr h
    | error e' => simp [asOneOf, hf, hs, Except.toOption] at h

end TwoForms

theorem asOption_some {read : Json α → Except DecodeError β} {j : Json α} {v : β}
    (hj : j.isNull = false) (h : read j = .ok v) : asOption read j = .ok (some v) := by
  cases j with
  | null => cases hj
  | _ => exact congrArg (some <$> ·) h

/-! Filling a draft. -/

variable {put : ρ → String → Json α → Except DecodeError ρ}

def Fills (put : ρ → String → Json α → Except DecodeError ρ) (fields : List (String × Json α))
    (d d' : ρ) : Prop :=
  fields.foldlM (fun r f => put r f.1 f.2) d = .ok d'

theorem Fills.append {fs gs : List (String × Json α)} {d e r : ρ} (hf : Fills put fs d e)
    (hg : Fills put gs e r) : Fills put (fs ++ gs) d r := by
  unfold Fills at *
  rw [List.foldlM_append, hf]
  exact hg

theorem fills_nil (d : ρ) : Fills put [] d d := rfl

theorem Fills.cons {name : String} {j : Json α} {fs : List (String × Json α)} {d e r : ρ}
    (h : put d name j = .ok e) (hf : Fills put fs e r) :
    Fills put ((name, j) :: fs) d r := by
  unfold Fills at *
  rw [List.foldlM_cons, h]
  exact hf

theorem Fills.field_cons {read : Json α → Except DecodeError β} {name : String} (set : β → ρ)
    {d d' : ρ} {j : Json α} {v : β} (h : read j = .ok v)
    (hput : put d name j = (read j >>= fun v => .ok (set v))) {fields : List (String × Json α)}
    (hrest : Fills put fields (set v) d') : Fills put ((name, j) :: fields) d d' := by
  refine Fills.cons ?_ hrest
  rw [hput, h]
  rfl

theorem Fills.field {read : Json α → Except DecodeError β} {name : String} (set : β → ρ) {d : ρ}
    {j : Json α} {v : β} (h : read j = .ok v)
    (hput : put d name j = (read j >>= fun v => .ok (set v))) :
    Fills put [(name, j)] d (set v) :=
  Fills.field_cons set h hput (fills_nil _)

/-- What fields keep holds of the draft that they lead to. `W` is what is known of their
values. -/
theorem foldlM_ok {W : Json α → Prop} {P : ρ → Prop}
    (hput : ∀ d name j d', W j → P d → put d name j = .ok d' → P d')
    {fields : List (String × Json α)} (hf : ∀ f ∈ fields, W f.2) {d d' : ρ} (hd : P d)
    (h : fields.foldlM (fun r f => put r f.1 f.2) d = .ok d') : P d' := by
  induction fields generalizing d with
  | nil =>
    cases h
    exact hd
  | cons f rest ih =>
    rw [List.foldlM_cons] at h
    obtain ⟨d₁, h₁, h⟩ := bind_ok h
    exact ih (fun g hg => hf g (List.mem_cons_of_mem _ hg))
      (hput d f.1 f.2 d₁ (hf f (List.mem_cons_self ..)) hd h₁) h

variable [Scalar α]

theorem asList_map {write : β → Json α} {read : Json α → Except DecodeError β} {items : List β}
    (h : ∀ x ∈ items, read (write x) = .ok x) :
    asList read (.arr (items.map write)) = .ok items :=
  mapM_map h

theorem asTable_map (write : β → Json α) {read : Json α → Except DecodeError β}
    {entries : Sorted β} (hascending : Sorted.Ascending entries)
    (h : ∀ e ∈ entries, read (write e.2) = .ok e.2) :
    asTable read (.obj (entries.map fun e => (e.1, write e.2))) = .ok entries := by
  have hentries : (entries.map fun e => (e.1, write e.2)).mapM
      (fun f => (do .ok (f.1, ← read f.2) : Except DecodeError (String × β))) = .ok entries :=
    mapM_map fun e he => by
      simp only [h e he]
      rfl
  rw [asTable, hentries]
  exact congrArg Except.ok (Sorted.ofList_eq_self hascending)

theorem asTable_ok {read : Json α → Except DecodeError β} {j : Json α} {entries : Sorted β}
    (h : asTable read j = .ok entries) :
    Sorted.Ascending entries ∧ ∀ e ∈ entries, ∃ i, read i = .ok e.2 := by
  cases j with
  | obj fields =>
    obtain ⟨found, hfound, h⟩ := bind_ok h
    cases h
    refine ⟨Sorted.ascending_ofList found, Sorted.forall_ofList (P := fun v => ∃ i, read i = .ok v)
      fun e he => ?_⟩
    obtain ⟨f, -, hf⟩ := mapM_ok hfound e he
    obtain ⟨v, hv, hf⟩ := bind_ok hf
    cases hf
    exact ⟨f.2, hv⟩
  | null => cases h
  | bool => cases h
  | int => cases h
  | real => cases h
  | str => cases h
  | arr => cases h

theorem asTable_get?_iff {read : Json α → Except DecodeError β} {fields : List (String × Json α)}
    (hfields : Sorted.Distinct fields) {entries : Sorted β}
    (h : asTable read (.obj fields) = .ok entries) {key : String} {v : β} :
    Sorted.get? key entries = some v ↔
      ∃ j, Sorted.get? key fields = some j ∧ read j = .ok v := by
  obtain ⟨found, hfound, h⟩ := bind_ok h
  cases h
  have hkeys : Sorted.Distinct found := by
    have hnames : found.map Prod.fst = fields.map Prod.fst := by
      refine mapM_map_eq (fun f e hread => ?_) hfound
      obtain ⟨w, -, hread⟩ := bind_ok hread
      cases hread
      rfl
    rwa [Sorted.distinct_iff_nodup, hnames, ← Sorted.distinct_iff_nodup]
  rw [Sorted.get?_ofList hkeys, Sorted.get?_eq_some_iff hkeys, mapM_mem_iff hfound]
  simp only [Sorted.get?_eq_some_iff hfields]
  constructor
  · rintro ⟨⟨k, j⟩, hmem, hread⟩
    obtain ⟨w, hw, hread⟩ := bind_ok hread
    cases hread
    exact ⟨j, hmem, hw⟩
  · rintro ⟨j, hmem, hread⟩
    refine ⟨(key, j), hmem, ?_⟩
    simp only [hread]
    rfl

theorem asTable_reads {read : Json α → Except DecodeError β} {fields : List (String × Json α)}
    (hfields : Sorted.Distinct fields) {entries : Sorted β}
    (h : asTable read (.obj fields) = .ok entries) {key : String} {j : Json α}
    (hj : Sorted.get? key fields = some j) : ∃ v, read j = .ok v := by
  obtain ⟨found, hfound, -⟩ := bind_ok h
  obtain ⟨e, he⟩ := mapM_reads hfound (key, j) ((Sorted.get?_eq_some_iff hfields).mp hj)
  obtain ⟨v, hv, -⟩ := bind_ok he
  exact ⟨v, hv⟩

/-! Whole numbers. -/

theorem asInteger_ok {lo hi : Int} {kind : String} {j : Json α} {n : Int}
    (h : asInteger lo hi kind j = .ok n) : lo ≤ n ∧ n ≤ hi := by
  cases j with
  | int m =>
    rw [asInteger] at h
    split at h
    · next hm =>
      cases h
      exact hm
    · cases h
  | null => cases h
  | bool => cases h
  | real => cases h
  | str => cases h
  | arr => cases h
  | obj => cases h

theorem natural_ok {hi : Int} {kind : String} {j : Json α} {n : Nat}
    (h : Int.toNat <$> asInteger 0 hi kind j = .ok n) : (n : Int) ≤ hi := by
  obtain ⟨m, hm, rfl⟩ := map_ok h
  obtain ⟨hlo, hhi⟩ := asInteger_ok hm
  rwa [Int.toNat_of_nonneg hlo]

theorem natural_int {hi : Int} {n : Nat} (h : (n : Int) ≤ hi) (kind : String) :
    Int.toNat <$> asInteger 0 hi kind (.int n : Json α) = .ok n := by
  rw [asInteger, if_pos ⟨Int.natCast_nonneg n, h⟩]
  rfl

theorem asRecord_obj {type : String} {names due : List String} {draft d : ρ}
    {finish : ρ → Except String β} {fields : List (String × Json α)} {r : β}
    (h : Fills put fields draft d) (hr : finish d = .ok r) :
    asRecord type names due draft put finish (.obj fields) = .ok r := by
  unfold Fills at h
  simp only [asRecord, h]
  show (finish d).mapError DecodeError.missingField = .ok r
  rw [hr]
  rfl

/-! What readers yield. -/

def Yields (read : Json α → Except DecodeError β) (P : β → Prop) : Prop :=
  ∀ ⦃j v⦄, j.WellFormed → read j = .ok v → P v

theorem Yields.map {read : Json α → Except DecodeError β} {f : β → γ} {P : γ → Prop}
    (h : Yields read fun v => P (f v)) : Yields (fun j => f <$> read j) P := by
  intro j c hj hc
  obtain ⟨b, hb, rfl⟩ := map_ok hc
  exact h hj hb

theorem yields_asScalar [LawfulScalar α] :
    Yields (asScalar : Json α → _) fun x => Scalar.isFinite x = true := by
  intro j x hj hx
  cases j with
  | int n =>
    cases hx
    exact hj.isFinite_of_scalar? rfl
  | real x =>
    cases hx
    exact hj.isFinite_of_scalar? rfl
  | null => cases hx
  | bool => cases hx
  | str => cases hx
  | arr => cases hx
  | obj => cases hx

theorem yields_asInt64 : Yields (asInt64 : Json α → _) fun n => isInt64 n = true :=
  fun _ _ _ hn => decide_eq_true (asInteger_ok hn)

theorem Yields.asOption {read : Json α → Except DecodeError β} {P : β → Prop}
    (h : Yields read P) : Yields (asOption read) fun v => ∀ x ∈ v, P x := by
  intro j v hj hv x hx
  unfold Json.asOption at hv
  split at hv
  · cases hv
    cases hx
  · obtain ⟨b, hb, rfl⟩ := map_ok hv
    cases hx
    exact h hj hb

theorem Yields.asList {read : Json α → Except DecodeError β} {P : β → Prop}
    (h : Yields read P) : Yields (asList read) fun vs => ∀ v ∈ vs, P v := by
  intro j vs hj hvs v hv
  unfold Json.asList at hvs
  split at hvs
  · obtain ⟨i, hi, hiv⟩ := mapM_ok hvs v hv
    exact h (hj.items i hi) hiv
  · cases hvs

theorem yields_asOneOf {type : String} {first second : Json α → Except DecodeError β} {P : β → Prop}
    (hf : Yields first P) (hs : Yields second P) : Yields (asOneOf type [first, second]) P := by
  intro j v hj hv
  rcases asOneOf_ok hv with hv | hv
  · exact hf hj hv
  · exact hs hj hv

theorem Yields.keeps {read : Json α → Except DecodeError β} {Q : β → Prop} (hr : Yields read Q)
    {j : Json α} (hj : j.WellFormed) {set : β → ρ} {d : ρ}
    (h : (read j >>= fun v => .ok (set v)) = .ok d) {P : ρ → Prop} (hP : ∀ v, Q v → P (set v)) :
    P d := by
  obtain ⟨v, hv, h⟩ := bind_ok h
  cases h
  exact hP v (hr hj hv)

theorem yields_any (read : Json α → Except DecodeError β) : Yields read fun _ => True :=
  fun _ _ _ _ => trivial

/-- What holds of the empty draft and is kept by every field holds of the draft
that a record is made from. -/
theorem asRecord_ok {type : String} {names due : List String} {draft : ρ}
    {finish : ρ → Except String β} {W : Json α → Prop}
    (P : ρ → Prop) {Q : β → Prop} (hdraft : P draft)
    (hput : ∀ d name j d', W j → P d → put d name j = .ok d' → P d')
    (hfinish : ∀ d r, P d → finish d = .ok r → Q r) {j : Json α}
    (hfields : ∀ fields, j = .obj fields → ∀ f ∈ fields, W f.2)
    (hitems : ∀ items, j = .arr items → ∀ i ∈ items, W i) {r : β}
    (h : asRecord type names due draft put finish j = .ok r) : Q r := by
  have hmade {d : ρ} {e : String → DecodeError} {r : β} (hd : P d)
      (h : (finish d).mapError e = .ok r) : Q r := by
    cases hr : finish d with
    | error name =>
      rw [hr] at h
      cases h
    | ok r' =>
      rw [hr] at h
      cases h
      exact hfinish d r hd hr
  cases j with
  | obj fields =>
    obtain ⟨d, hd, h⟩ := bind_ok h
    exact hmade (foldlM_ok hput (hfields fields rfl) hdraft hd) h
  | arr items =>
    obtain ⟨d, hd, h⟩ := bind_ok h
    have hP : P d := foldlM_ok hput
      (fun f hf => hitems items rfl f.2 (List.of_mem_zip hf).2) hdraft hd
    dsimp only at h
    split at h
    · cases h
    · obtain ⟨r', hr, h⟩ := bind_ok h
      split at h
      · cases h
      · cases h
        exact hmade hP hr
  | null => cases h
  | bool => cases h
  | int => cases h
  | real => cases h
  | str => cases h

theorem yields_asRecord {type : String} {names due : List String} {draft : ρ}
    {finish : ρ → Except String β}
    (P : ρ → Prop) {Q : β → Prop} (hdraft : P draft)
    (hput : ∀ d name j d', j.WellFormed → P d → put d name j = .ok d' → P d')
    (hfinish : ∀ d r, P d → finish d = .ok r → Q r) :
    Yields (asRecord type names due draft put finish) Q := by
  intro j r hj h
  refine asRecord_ok P hdraft hput hfinish ?_ ?_ h
  · rintro fields rfl
    exact hj.fields
  · rintro items rfl
    exact hj.items

theorem asRecord_ok_of_any {type : String} {names due : List String} {draft : ρ}
    {finish : ρ → Except String β} (P : ρ → Prop) {Q : β → Prop} (hdraft : P draft)
    (hput : ∀ d name j d', P d → put d name j = .ok d' → P d')
    (hfinish : ∀ d r, P d → finish d = .ok r → Q r) {j : Json α} {r : β}
    (h : asRecord type names due draft put finish j = .ok r) : Q r :=
  asRecord_ok (W := fun _ => True) P hdraft (fun d name j d' _ => hput d name j d') hfinish
    (fun _ _ _ _ => trivial) (fun _ _ _ _ => trivial) h

/-! Single fields. -/

def member? (name : String) (place : Nat) : Json α → Option (Json α)
  | .obj fields => Sorted.get? name fields
  | .arr items => items[place]?
  | _ => none

def ReadAs (read : Json α → Except DecodeError β) (usual : β) : Option (Json α) → β → Prop
  | none, v => v = usual
  | some j, v => read j = .ok v

def Sets (put : ρ → String → Json α → Except DecodeError ρ) (name : String)
    (read : Json α → Except DecodeError γ) (part : ρ → γ) : Prop :=
  ∀ ⦃d n j d'⦄, put d n j = .ok d' →
    if n = name then read j = .ok (part d') else part d' = part d

section Members

variable {name : String} {read : Json α → Except DecodeError γ} {part : ρ → γ}

omit [Scalar α]

theorem Sets.fields (h : Sets put name read part) {fields : List (String × Json α)}
    (hfields : Sorted.Distinct fields) {d d' : ρ} (hd : Fills put fields d d') :
    ReadAs read (part d) (Sorted.get? name fields) (part d') := by
  induction fields generalizing d with
  | nil =>
    cases hd
    rfl
  | cons f rest ih =>
    obtain ⟨n, j⟩ := f
    obtain ⟨hnew, hrest⟩ := List.pairwise_cons.mp hfields
    unfold Fills at hd
    rw [List.foldlM_cons] at hd
    obtain ⟨d₁, h₁, hd⟩ := bind_ok hd
    have hput := h h₁
    have hlater := ih hrest hd
    rw [Sorted.get?_cons]
    by_cases hn : n = name
    · subst hn
      have habsent : Sorted.get? n rest = none :=
        Option.eq_none_iff_forall_ne_some.mpr fun w hw =>
          hnew _ ((Sorted.get?_eq_some_iff hrest).mp hw) rfl
      rw [if_pos rfl] at hput ⊢
      rw [habsent] at hlater
      exact hlater ▸ hput
    · rw [if_neg hn] at hput
      rw [if_neg (Ne.symm hn), ← hput]
      exact hlater

theorem get?_zip {names : List String} (hnames : names.Nodup) {place : Nat}
    (hplace : names[place]? = some name) (items : List (Json α)) :
    Sorted.get? name (names.zip items) = items[place]? := by
  induction names generalizing place items with
  | nil => cases hplace
  | cons n names ih =>
    obtain ⟨hn, hnames⟩ := List.nodup_cons.mp hnames
    cases items with
    | nil => rfl
    | cons i items =>
      rw [List.zip_cons_cons, Sorted.get?_cons]
      cases place with
      | zero =>
        cases hplace
        rw [if_pos rfl]
        rfl
      | succ place =>
        have hmem : name ∈ names := List.mem_of_getElem? hplace
        rw [if_neg (ne_of_mem_of_not_mem hmem hn)]
        exact ih hnames hplace items

theorem distinct_zip {names : List String} (h : names.Nodup) (items : List (Json α)) :
    Sorted.Distinct (names.zip items) := by
  induction names generalizing items with
  | nil => exact .nil
  | cons n names ih =>
    obtain ⟨hn, hnames⟩ := List.nodup_cons.mp h
    cases items with
    | nil => exact .nil
    | cons i items =>
      refine List.pairwise_cons.mpr ⟨fun e he heq => hn ?_, ih hnames items⟩
      rw [show n = e.1 from heq]
      exact (List.of_mem_zip he).1

end Members

theorem Sets.asRecord {name : String} {read : Json α → Except DecodeError γ} (part : ρ → γ)
    (h : Sets put name read part) {type : String} {names due : List String} {draft r : ρ}
    {place : Nat} (hnames : names.Nodup) (hplace : names[place]? = some name) {j : Json α}
    (hj : ∀ fields, j = .obj fields → Sorted.Distinct fields)
    (hr : asRecord type names due draft put .ok j = .ok r) :
    ReadAs read (part draft) (j.member? name place) (part r) := by
  cases j with
  | obj fields =>
    obtain ⟨d, hd, hr⟩ := bind_ok hr
    cases hr
    exact h.fields (hj fields rfl) hd
  | arr items =>
    obtain ⟨d, hd, hr⟩ := bind_ok hr
    have hpart := h.fields (distinct_zip hnames items) hd
    rw [get?_zip hnames hplace] at hpart
    dsimp only at hr
    split at hr
    · cases hr
    · obtain ⟨r', hr', hr⟩ := bind_ok hr
      cases hr'
      split at hr
      · cases hr
      · cases hr
        exact hpart
  | null => cases hr
  | bool => cases hr
  | int => cases hr
  | real => cases hr
  | str => cases hr

end Partitura.Json
