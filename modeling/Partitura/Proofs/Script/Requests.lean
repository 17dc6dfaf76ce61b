import Partitura.Proofs.Script.Names

/-!
# Requests for names

Names are asked for by keys and by texts, in any order. Every request is answered by an identifier.
A key is answered by the same name each time, and a name that is made for a request is none of the
names given before: the search for it tries one number after the other and comes to an end, since
it passes over names that have been given only.
-/

namespace Partitura.Script

/-! ## Identifiers -/

/-- A small letter, then letters, digits and underscores, all of them ASCII. -/
def IsIdentifier (s : String) : Prop :=
  ∃ c rest, s.toList = c :: rest ∧ c.isLower = true ∧ ∀ d ∈ rest, d.isAlphanum = true ∨ d = '_'

theorem isLower_toLower {c : Char} (h : c.isUpper = true) : c.toLower.isLower = true := by
  have hupper : 'A'.val ≤ c.val ∧ c.val ≤ 'Z'.val := of_decide_eq_true h
  have hval : c.toLower.val = c.val + 32 := congrArg Char.val (dif_pos hupper)
  have hnat : 65 ≤ c.val.toNat ∧ c.val.toNat ≤ 90 := hupper
  have hmoved : (c.val + 32).toNat = c.val.toNat + 32 :=
    Nat.mod_eq_of_lt (show c.val.toNat + 32 < 2 ^ 32 by omega)
  have hlower : 97 ≤ c.toLower.val.toNat ∧ c.toLower.val.toNat ≤ 122 := by
    rw [hval, hmoved]
    omega
  exact Bool.and_eq_true_iff.mpr ⟨decide_eq_true hlower.1, decide_eq_true hlower.2⟩

theorem of_mem_identifierChars {cs : List Char} {d : Char} (h : d ∈ identifierChars cs) :
    d.isAlphanum = true ∨ d = '_' := by
  obtain ⟨c, -, rfl⟩ := List.mem_map.mp h
  split
  · next hc => exact .inl hc
  · exact .inr rfl

theorem isIdentifier_identifier (raw : String) : IsIdentifier (identifier raw) := by
  have hall (d : Char) : d ∈ identifierChars raw.toList → d.isAlphanum = true ∨ d = '_' :=
    of_mem_identifierChars
  unfold identifier
  split
  · exact ⟨'x', [], rfl, rfl, nofun⟩
  · next c rest hchars =>
    rw [hchars] at hall
    have hrest := fun d hd => hall d (List.mem_cons_of_mem c hd)
    split
    · next hupper => exact ⟨c.toLower, rest, String.toList_ofList, isLower_toLower hupper, hrest⟩
    · split
      · next hlower => exact ⟨c, rest, String.toList_ofList, hlower, hrest⟩
      · exact ⟨'n', c :: rest, String.toList_ofList, rfl, hall⟩

theorem IsIdentifier.numbered {base : String} (h : IsIdentifier base) (n : Nat) :
    IsIdentifier (Names.numbered base n) := by
  unfold Names.numbered
  split
  · exact h
  · obtain ⟨c, rest, hbase, hlower, hrest⟩ := h
    refine ⟨c, rest ++ '_' :: (toString n).toList, ?_, hlower, fun d hd => ?_⟩
    · simp [hbase]
    · rcases List.mem_append.mp hd with hd | hd
      · exact hrest d hd
      · rcases List.mem_cons.mp hd with rfl | hd
        · exact .inr rfl
        · have hdigit := isDigit_of_mem_toString hd
          exact .inl (by rw [Char.isAlphanum, hdigit, Bool.or_true])

/-! ## The search for a new name -/

/-- The search from a number on. It passes over names that are taken, `steps` of them, and ends at
the first that is not. -/
inductive SearchEnds (taken : List String) (base : String) : (n steps : Nat) → String → Prop where
  | free {n : Nat} : Names.numbered base n ∉ taken →
    SearchEnds taken base n 0 (Names.numbered base n)
  | next {n steps : Nat} {name : String} : Names.numbered base n ∈ taken →
    SearchEnds taken base (n + 1) steps name → SearchEnds taken base n (steps + 1) name

theorem SearchEnds.new {taken : List String} {base : String} {n steps : Nat} {name : String}
    (h : SearchEnds taken base n steps name) : name ∉ taken := by
  induction h with
  | free hfree => exact hfree
  | next _ _ ih => exact ih

theorem SearchEnds.congr {taken taken' : List String} {base : String} {n steps : Nat}
    {name : String} (h : SearchEnds taken base n steps name)
    (htaken : ∀ name, name ∈ taken ↔ name ∈ taken') : SearchEnds taken' base n steps name := by
  induction h with
  | free hfree => exact .free fun hmem => hfree ((htaken _).mpr hmem)
  | next hmem _ ih => exact .next ((htaken _).mp hmem) ih

/-- A search with a bound ends by itself if it does not come to a name that is taken. -/
theorem exists_searchEnds {taken : List String} {base : String} {fuel n : Nat}
    (h : Names.firstFree taken base fuel n ∉ taken) :
    ∃ steps ≤ fuel, SearchEnds taken base n steps (Names.firstFree taken base fuel n) := by
  induction fuel generalizing n with
  | zero => exact ⟨0, Nat.le_refl 0, .free h⟩
  | succ fuel ih =>
    unfold Names.firstFree at h ⊢
    split
    · next hmem =>
      rw [if_pos hmem] at h
      obtain ⟨steps, hle, hend⟩ := ih h
      exact ⟨steps + 1, Nat.succ_le_succ hle, .next hmem hend⟩
    · next hfree => exact ⟨0, Nat.zero_le _, .free hfree⟩

namespace Names

theorem exists_searchEnds_fresh (names : Names) (raw : String) :
    ∃ steps ≤ names.taken.length,
      SearchEnds names.taken (identifier raw) 1 steps (names.fresh raw).1 :=
  exists_searchEnds (firstFree_not_mem names.taken (identifier raw) 1)

theorem isIdentifier_fresh (names : Names) (raw : String) : IsIdentifier (names.fresh raw).1 := by
  obtain ⟨n, hn⟩ := exists_firstFree names.taken (identifier raw) names.taken.length 1
  show IsIdentifier (firstFree names.taken (identifier raw) names.taken.length 1)
  rw [hn]
  exact (isIdentifier_identifier raw).numbered n

def name? (names : Names) (key : String) : Option String :=
  (names.given.find? fun e => e.1 == key).map Prod.snd

theorem name?_of_given {names after : Names} {key name : String}
    (h : after.given = (key, name) :: names.given) (other : String) :
    after.name? other = if key = other then some name else names.name? other := by
  rw [name?, h, List.find?_cons]
  split
  · next heq => rw [if_pos (beq_iff_eq.mp heq), Option.map_some]
  · next hne => rw [if_neg (beq_eq_false_iff_ne.mp hne), name?]

theorem get_of_name? {names : Names} {key name : String} (h : names.name? key = some name) :
    names.get key = (name, names) := by
  obtain ⟨e, hfind, rfl⟩ := Option.map_eq_some_iff.mp h
  simp only [get, hfind]

theorem get_of_name?_eq_none {names : Names} {key : String} (h : names.name? key = none) :
    names.get key =
      ((names.fresh key).1, { (names.fresh key).2 with
        given := (key, (names.fresh key).1) :: names.given }) := by
  have hfind := List.find?_eq_none.mp (Option.map_eq_none_iff.mp h)
  refine get_of_new fun hmem => ?_
  obtain ⟨e, he, rfl⟩ := List.mem_map.mp hmem
  exact hfind e he (beq_self_eq_true e.1)

end Names

/-! ## Requests and answers -/

inductive Request where
  | get (key : String)
  | fresh (raw : String)
deriving DecidableEq, Repr

namespace Names

def answer (names : Names) : Request → String × Names
  | .get key => names.get key
  | .fresh raw => names.fresh raw

def answers (names : Names) : List Request → List String × Names
  | [] => ([], names)
  | request :: rest =>
    let (name, names) := names.answer request
    let (later, names) := names.answers rest
    (name :: later, names)

theorem answers_cons (names : Names) (request : Request) (rest : List Request) :
    names.answers (request :: rest) =
      ((names.answer request).1 :: ((names.answer request).2.answers rest).1,
        ((names.answer request).2.answers rest).2) := rfl

theorem take_answers (names : Names) (requests : List Request) (i : Nat) :
    (names.answers requests).1.take i = (names.answers (requests.take i)).1 := by
  induction requests generalizing names i with
  | nil => simp [answers]
  | cons request rest ih =>
    cases i with
    | zero => rfl
    | succ i => simp only [answers_cons, List.take_succ_cons, ih]

theorem getElem?_answers (names : Names) (requests : List Request) (i : Nat) :
    (names.answers requests).1[i]? =
      requests[i]?.map fun request => ((names.answers (requests.take i)).2.answer request).1 := by
  induction requests generalizing names i with
  | nil => rfl
  | cons request rest ih =>
    cases i with
    | zero => rfl
    | succ i => simp only [answers_cons, List.getElem?_cons_succ, List.take_succ_cons, ih]

end Names

/-! ## What requests leave -/

/-- What is kept of requests and of the names that were given for them: which names are taken, and
which name each key was given. -/
structure Kept (requests : List Request) (out : List String) (names : Names) : Prop where
  length : out.length = requests.length
  identifiers : ∀ name ∈ out, IsIdentifier name
  taken : ∀ name, name ∈ names.taken ↔ name ∈ out
  few : names.taken.length ≤ requests.length
  given : ∀ key name, names.name? key = some name ↔ (.get key, name) ∈ requests.zip out

theorem kept_empty : Kept [] [] .empty :=
  ⟨rfl, nofun, fun _ => Iff.rfl, Nat.le_refl 0, fun _ _ => ⟨nofun, nofun⟩⟩

theorem Kept.concat {requests : List Request} {out : List String} {names after : Names}
    (h : Kept requests out names) {request : Request} {name : String}
    (hidentifier : IsIdentifier name)
    (htaken : ∀ other, other ∈ after.taken ↔ other ∈ names.taken ∨ other = name)
    (hfew : after.taken.length ≤ names.taken.length + 1)
    (hgiven : ∀ key other, after.name? key = some other ↔
      names.name? key = some other ∨ .get key = request ∧ other = name) :
    Kept (requests ++ [request]) (out ++ [name]) after := by
  refine ⟨by simp [h.length], ?_, fun other => ?_, ?_, fun key other => ?_⟩
  · exact List.forall_mem_append.mpr ⟨h.identifiers, List.forall_mem_singleton.mpr hidentifier⟩
  · rw [htaken, h.taken, List.mem_append, List.mem_singleton]
  · rw [List.length_append]
    exact hfew.trans (Nat.succ_le_succ h.few)
  · rw [hgiven, h.given, List.zip_append h.length.symm, List.mem_append, List.zip_cons_cons,
      List.zip_nil_left, List.mem_singleton, Prod.mk.injEq]

theorem Kept.concat_fresh {requests : List Request} {out : List String} {names after : Names}
    (h : Kept requests out names) {request : Request} (text : String)
    (htaken : after.taken = (names.fresh text).1 :: names.taken)
    (hgiven : ∀ key other, after.name? key = some other ↔
      names.name? key = some other ∨ .get key = request ∧ other = (names.fresh text).1) :
    Kept (requests ++ [request]) (out ++ [(names.fresh text).1]) after := by
  refine h.concat (names.isIdentifier_fresh text) (fun other => ?_) ?_ hgiven
  · rw [htaken, List.mem_cons]
    exact or_comm
  · rw [htaken]
    exact Nat.le_refl _

theorem Kept.answer {requests : List Request} {out : List String} {names : Names}
    (h : Kept requests out names) (request : Request) :
    Kept (requests ++ [request]) (out ++ [(names.answer request).1]) (names.answer request).2 := by
  cases request with
  | fresh raw =>
    refine h.concat_fresh raw rfl fun key other => ?_
    exact ⟨.inl, fun hor => hor.elim id fun hnew => nomatch hnew.1⟩
  | get key =>
    show Kept _ (out ++ [(names.get key).1]) (names.get key).2
    cases hname : names.name? key with
    | some name =>
      rw [Names.get_of_name? hname]
      have hmem := (h.given key name).mp hname
      have hout := (List.of_mem_zip hmem).2
      refine h.concat (h.identifiers name hout) (fun other => ?_) (Nat.le_succ _)
        fun key' other => ?_
      · refine ⟨.inl, fun hor => hor.elim id fun heq => ?_⟩
        rw [heq, h.taken]
        exact hout
      · refine ⟨.inl, fun hor => hor.elim id ?_⟩
        rintro ⟨hkey, rfl⟩
        rw [Request.get.inj hkey]
        exact hname
    | none =>
      rw [Names.get_of_name?_eq_none hname]
      refine h.concat_fresh key rfl fun key' other => ?_
      rw [Names.name?_of_given rfl, Request.get.injEq]
      split
      · next hkey =>
        subst hkey
        rw [hname, Option.some.injEq]
        exact ⟨fun heq => .inr ⟨rfl, heq.symm⟩, fun hor => hor.elim nofun (·.2.symm)⟩
      · next hkey =>
        exact ⟨.inl, fun hor => hor.elim id fun hnew => absurd hnew.1.symm hkey⟩

/-- What is kept of requests is kept of more of them. -/
theorem Kept.answers {requests : List Request} {out : List String} {names : Names}
    (h : Kept requests out names) (more : List Request) :
    Kept (requests ++ more) (out ++ (names.answers more).1) (names.answers more).2 := by
  induction more generalizing requests out names with
  | nil => simpa [Names.answers] using h
  | cons request rest ih => simpa [Names.answers_cons] using ih (h.answer request)

theorem kept_answers (requests : List Request) :
    Kept requests (Names.empty.answers requests).1 (Names.empty.answers requests).2 :=
  kept_empty.answers requests

/-! ## All requests -/

/-- A request that a new name is made for from a text: the text itself, or a key that has not been
asked for before. -/
def AsksNew (requests : List Request) (i : Nat) (text : String) : Prop :=
  requests[i]? = some (Request.fresh text) ∨
    requests[i]? = some (Request.get text) ∧ Request.get text ∉ requests.take i

/-- How requests are answered by names, one by one. -/
structure Answered (requests : List Request) (names : List String) : Prop where
  length : names.length = requests.length
  identifiers : ∀ name ∈ names, IsIdentifier name
  same : ∀ (i j : Nat) (key : String), requests[i]? = some (Request.get key) →
    requests[j]? = some (Request.get key) → names[i]? = names[j]?
  /-- The search for a new name passes over names that have been given, not more of them than there
  have been requests, and ends. -/
  search : ∀ (i : Nat) (text : String), AsksNew requests i text → ∃ steps ≤ i, ∃ name,
    names[i]? = some name ∧ SearchEnds (names.take i) (identifier text) 1 steps name
  distinct : ∀ (i j : Nat) (text text' : String), AsksNew requests i text →
    AsksNew requests j text' → names[i]? = names[j]? → i = j

theorem exists_search {requests : List Request} {i : Nat} {text : String}
    (h : AsksNew requests i text) : ∃ steps ≤ i, ∃ name,
      (Names.empty.answers requests).1[i]? = some name ∧
      SearchEnds ((Names.empty.answers requests).1.take i) (identifier text) 1 steps name := by
  have hkept := kept_answers (requests.take i)
  rw [Names.take_answers, Names.getElem?_answers]
  generalize (Names.empty.answers (requests.take i)).1 = before,
    (Names.empty.answers (requests.take i)).2 = names at *
  have hmade : requests[i]?.map (fun request => (names.answer request).1) =
      some (names.fresh text).1 := by
    rcases h with h | ⟨h, hfirst⟩
    · rw [h]
      rfl
    · have hnone : names.name? text = none := by
        rw [Option.eq_none_iff_forall_ne_some]
        intro name hname
        exact hfirst (List.of_mem_zip ((hkept.given text name).mp hname)).1
      rw [h, Option.map_some, Names.answer, Names.get_of_name?_eq_none hnone]
  obtain ⟨steps, hle, hend⟩ := names.exists_searchEnds_fresh text
  have hfew : names.taken.length ≤ i := hkept.few.trans (List.length_take_le i requests)
  exact ⟨steps, hle.trans hfew, _, hmade, hend.congr hkept.taken⟩

theorem Kept.same {requests : List Request} {out : List String} {names : Names}
    (h : Kept requests out names) {i : Nat} {key : String}
    (hi : requests[i]? = some (Request.get key)) : out[i]? = names.name? key := by
  have hlt : i < out.length := h.length ▸ (List.getElem?_eq_some_iff.mp hi).1
  have hout : out[i]? = some out[i] := List.getElem?_eq_getElem hlt
  have hzip : (requests.zip out)[i]? = some (Request.get key, out[i]) :=
    List.getElem?_zip_eq_some.mpr ⟨hi, hout⟩
  rw [hout, (h.given key out[i]).mpr (List.mem_of_getElem? hzip)]

theorem getElem?_ne_of_asksNew {requests : List Request} {i j : Nat} {text : String}
    (h : AsksNew requests j text) (hlt : i < j) :
    (Names.empty.answers requests).1[i]? ≠ (Names.empty.answers requests).1[j]? := by
  obtain ⟨steps, -, name, hname, hend⟩ := exists_search h
  rw [hname]
  intro heq
  rw [← List.getElem?_take_of_lt hlt] at heq
  exact hend.new (List.mem_of_getElem? heq)

/-- Requests from the beginning. -/
theorem answered_answers (requests : List Request) :
    Answered requests (Names.empty.answers requests).1 := by
  have hkept := kept_answers requests
  refine ⟨hkept.length, hkept.identifiers, fun i j key hi hj => ?_,
    fun i text h => exists_search h, fun i j text text' hi hj heq => ?_⟩
  · rw [hkept.same hi, hkept.same hj]
  · rcases Nat.lt_trichotomy i j with hlt | rfl | hlt
    · exact absurd heq (getElem?_ne_of_asksNew hj hlt)
    · rfl
    · exact absurd heq.symm (getElem?_ne_of_asksNew hi hlt)

example : (Names.empty.answers [.get "a-b", .get "a_b", .get "a-b", .fresh "a b"]).1 =
    ["a_b", "a_b_2", "a_b", "a_b_3"] := by decide +kernel

end Partitura.Script
