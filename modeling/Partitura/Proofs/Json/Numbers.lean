import Partitura.Json.Reader
import Partitura.Proofs.Json.Record

/-!
# The numbers of a document that has been read

A number with a point or an exponent stands for what its digits and its exponent scale to, or for
the opposite of that. So what holds of such numbers holds of every number of a value that a text
is read as, however deep it lies.
-/

namespace Partitura.Json

variable {α : Type}

/-- A value all of whose numbers that are not integers have a property. -/
inductive Reals (P : α → Prop) : Json α → Prop where
  | null : Reals P .null
  | bool (b : Bool) : Reals P (.bool b)
  | int (n : Int) : Reals P (.int n)
  | real {x : α} : P x → Reals P (.real x)
  | str (s : String) : Reals P (.str s)
  | arr {items : List (Json α)} : (∀ i ∈ items, Reals P i) → Reals P (.arr items)
  | obj {fields : List (String × Json α)} : (∀ f ∈ fields, Reals P f.2) → Reals P (.obj fields)

namespace Reals

variable {P : α → Prop}

theorem items {items : List (Json α)} (h : Reals P (.arr items)) : ∀ i ∈ items, Reals P i := by
  cases h with
  | arr h => exact h

theorem fields {fields : List (String × Json α)} (h : Reals P (.obj fields)) :
    ∀ f ∈ fields, Reals P f.2 := by
  cases h with
  | obj h => exact h

theorem lookup {key : String} {fields : List (String × Json α)} {j : Json α}
    (h : Reals P (.obj fields)) (hl : Json.lookup key fields = some j) : Reals P j :=
  h.fields _ (mem_of_lookup hl)

theorem get? {key : String} {j i : Json α} (h : Reals P j) (hi : j.get? key = some i) :
    Reals P i := by
  cases j with
  | obj fields => exact h.lookup hi
  | _ => cases hi

theorem array? {j : Json α} (h : Reals P j) {items : List (Json α)}
    (ha : j.array? = some items) : ∀ i ∈ items, Reals P i := by
  cases j with
  | arr items =>
    cases ha
    exact h.items
  | _ => cases ha

theorem object? {j : Json α} (h : Reals P j) {fields : List (String × Json α)}
    (ho : j.object? = some fields) : Reals P (.obj fields) := by
  cases j with
  | obj fields =>
    cases ho
    exact h
  | _ => cases ho

theorem put {key : String} {v : Json α} {fields : List (String × Json α)} (hv : Reals P v)
    (hf : ∀ f ∈ fields, Reals P f.2) : ∀ f ∈ Json.put key v fields, Reals P f.2 := by
  intro f hmem
  rcases mem_put hmem with rfl | hmem
  · exact hv
  · exact hf f hmem

theorem scalar? [Scalar α] {j : Json α} (h : Reals P j) (hint : ∀ n, P (Scalar.ofInt n)) {x : α}
    (hx : j.scalar? = some x) : P x := by
  cases h with
  | int n =>
    cases hx
    exact hint n
  | real hr =>
    cases hx
    exact hr
  | _ => cases hx

end Reals

/-! ## Results of a reader -/

def Gives {β : Type} (Q : β → Prop) (r : Except Failure (β × List Char)) : Prop :=
  ∀ out, r = .ok out → Q out.1

section Gives

variable {β γ : Type} {Q : β → Prop}

theorem gives_ok {v : β} (h : Q v) (rest : List Char) : Gives Q (.ok (v, rest)) := by
  rintro _ ⟨⟩
  exact h

theorem gives_error (failure : Failure) : Gives Q (.error failure) := nofun

theorem gives_bind {x : Except Failure γ} {f : γ → Except Failure (β × List Char)}
    (h : ∀ c, x = .ok c → Gives Q (f c)) : Gives Q (x >>= f) := by
  cases x with
  | error failure => exact gives_error failure
  | ok c => exact h c rfl

end Gives

/-! ## Numbers -/

variable [Scalar α]

def OfNumerals (P : α → Prop) : Prop :=
  ∀ digits exponent, P (Scalar.ofDecimal digits exponent) ∧ P (-Scalar.ofDecimal digits exponent)

variable {P : α → Prop} (hP : OfNumerals P)

include hP

theorem gives_scaled (negative : Bool) (digits : Nat) (e : Int) (rest : List Char) :
    Gives (Reals P) (scaled negative digits e rest) := by
  unfold scaled
  dsimp only
  split
  · cases negative
    · exact gives_ok (.real (hP digits e).1) rest
    · exact gives_ok (.real (hP digits e).2) rest
  · exact gives_error _

theorem gives_exponent (negative : Bool) (digits : Nat) (scale : Int) (cs : List Char) :
    Gives (Reals P) (exponent negative digits scale cs) := by
  unfold exponent
  dsimp only
  split
  · exact gives_error _
  · split
    · split
      · exact gives_error _
      · exact gives_scaled hP _ _ _ _
    · exact gives_error _

theorem gives_afterWhole (negative : Bool) (digits : Nat) (cs : List Char) :
    Gives (Reals P) (afterWhole negative digits cs) := by
  unfold afterWhole
  split
  · dsimp only
    split
    · exact gives_error _
    · split
      · exact gives_exponent hP _ _ _ _
      · exact gives_exponent hP _ _ _ _
      · exact gives_scaled hP _ _ _ _
  · exact gives_exponent hP _ _ _ _
  · exact gives_exponent hP _ _ _ _
  · split
    · split
      · exact gives_scaled hP _ _ _ _
      · exact gives_ok (.int _) _
    · split
      · exact gives_ok (.int _) _
      · exact gives_scaled hP _ _ _ _

theorem gives_number (negative : Bool) (cs : List Char) :
    Gives (Reals P) (number negative cs) := by
  unfold number
  split
  · exact gives_error _
  · split
    · split
      · split
        · exact gives_error _
        · exact gives_afterWhole hP _ _ _
      · exact gives_afterWhole hP _ _ _
    · split
      · exact gives_afterWhole hP _ _ _
      · exact gives_error _

/-! ## Values -/

/-- One round of fuel for values, lists and objects at once, as each is read with the others. -/
theorem gives_value (fuel : Nat) :
    (∀ depth cs, Gives (Reals P) (value fuel depth cs)) ∧
      (∀ depth cs, Gives (fun vs => ∀ v ∈ vs, Reals P v) (items fuel depth cs)) ∧
      (∀ depth fields cs, (∀ f ∈ fields, Reals P f.2) →
        Gives (fun fs => ∀ f ∈ fs, Reals P f.2) (members fuel depth fields cs)) := by
  induction fuel with
  | zero =>
    refine ⟨fun depth cs => ?_, fun depth cs => ?_, fun depth fields cs _ => ?_⟩
    · unfold value
      exact gives_error _
    · unfold items
      exact gives_error _
    · unfold members
      exact gives_error _
  | succ fuel ih =>
    obtain ⟨hvalue, hitems, hmembers⟩ := ih
    refine ⟨fun depth cs => ?_, fun depth cs => ?_, fun depth fields cs hf => ?_⟩
    · unfold value
      split
      · exact gives_error _
      · exact gives_bind fun _ _ => gives_ok .null _
      · exact gives_bind fun _ _ => gives_ok (.bool true) _
      · exact gives_bind fun _ _ => gives_ok (.bool false) _
      · exact gives_number hP _ _
      · exact gives_bind fun _ _ => gives_ok (.str _) _
      · split
        · exact gives_error _
        · split
          · exact gives_ok (.arr nofun) _
          · exact gives_error _
          · exact gives_bind fun c hc => gives_ok (.arr (hitems _ _ c hc)) _
      · split
        · exact gives_error _
        · split
          · exact gives_ok (.obj nofun) _
          · exact gives_error _
          · exact gives_bind fun c hc =>
              gives_ok (.obj (hmembers _ _ _ (List.forall_mem_nil _) c hc)) _
      · split
        · exact gives_number hP _ _
        · exact gives_error _
    · unfold items
      refine gives_bind fun c hc => ?_
      have hfirst := hvalue _ _ c hc
      dsimp only
      split
      · exact gives_ok (List.forall_mem_singleton.mpr hfirst) _
      · split
        · exact gives_error _
        · exact gives_error _
        · exact gives_bind fun d hd =>
            gives_ok (List.forall_mem_cons.mpr ⟨hfirst, hitems _ _ d hd⟩) _
      · exact gives_error _
      · exact gives_error _
    · unfold members
      split
      · refine gives_bind fun c _ => ?_
        dsimp only
        split
        · refine gives_bind fun d hd => ?_
          have hput : ∀ f ∈ put c.1 d.1 fields, Reals P f.2 := Reals.put (hvalue _ _ d hd) hf
          split
          · exact gives_ok hput _
          · split
            · exact hmembers _ _ _ hput
            · exact gives_error _
            · exact gives_error _
            · exact gives_error _
          · exact gives_error _
          · exact gives_error _
        · exact gives_error _
        · exact gives_error _
      · exact gives_error _

theorem reals_document {depth : Nat} {cs : List Char} {j : Json α}
    (h : document depth cs = .ok j) : Reals P j := by
  obtain ⟨out, hout, h⟩ := bind_ok h
  have hv := (gives_value hP _).1 _ _ out hout
  dsimp only at h
  split at h
  · cases h
    exact hv
  · cases h

theorem reals_parse {text : String} {j : Json α} (h : parse text = .ok j) : Reals P j := by
  cases hdoc : (document documentDepth text.toList : Except Failure (Json α)) with
  | error failure =>
    simp only [parse, hdoc] at h
    cases h
  | ok v =>
    simp only [parse, hdoc] at h
    cases h
    exact reals_document hP hdoc

end Partitura.Json
