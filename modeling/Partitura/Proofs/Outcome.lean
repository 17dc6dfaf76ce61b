import Partitura.Diagnostic
import Partitura.Proofs.Numbered

/-!
# Results and their reports

The result of a composed step is that of its last step, and its reports are those
of its steps in order. A property of reports that every step keeps to holds of all
reports that are made, and steps that are made for the entries of a list give their
results one by one.
-/

namespace Partitura.Outcome

variable {β γ : Type}

@[simp] theorem value_pure (v : β) : (pure v : Outcome β).value = v := rfl

@[simp] theorem diagnostics_pure (v : β) : (pure v : Outcome β).diagnostics = [] := rfl

@[simp] theorem value_bind (o : Outcome β) (f : β → Outcome γ) :
    (o >>= f).value = (f o.value).value := rfl

@[simp] theorem diagnostics_bind (o : Outcome β) (f : β → Outcome γ) :
    (o >>= f).diagnostics = o.diagnostics ++ (f o.value).diagnostics := rfl

@[simp] theorem diagnostics_note (d : Diagnostic) : (note d).diagnostics = [d] := rfl

@[simp] theorem value_collect (steps : List (Outcome β)) :
    (collect steps).value = steps.map value := rfl

@[simp] theorem diagnostics_collect (steps : List (Outcome β)) :
    (collect steps).diagnostics = steps.flatMap diagnostics := rfl

@[simp] theorem value_collectSome (steps : List (Outcome (Option β))) :
    (collectSome steps).value = steps.filterMap value := rfl

@[simp] theorem diagnostics_collectSome (steps : List (Outcome (Option β))) :
    (collectSome steps).diagnostics = steps.flatMap diagnostics := rfl

def Reports (P : Diagnostic → Prop) (o : Outcome β) : Prop := ∀ d ∈ o.diagnostics, P d

variable {P : Diagnostic → Prop}

theorem reports_pure (v : β) : Reports P (pure v) := fun _ hd => nomatch hd

theorem reports_note {d : Diagnostic} (h : P d) : Reports P (note d) := by
  intro e he
  rw [List.mem_singleton.mp he]
  exact h

theorem reports_bind {o : Outcome β} {f : β → Outcome γ} (ho : Reports P o)
    (hf : ∀ v, Reports P (f v)) : Reports P (o >>= f) := by
  intro d hd
  rcases List.mem_append.mp hd with hd | hd
  · exact ho d hd
  · exact hf o.value d hd

theorem reports_note_bind {d : Diagnostic} {f : Unit → Outcome γ} (h : P d)
    (hf : ∀ v, Reports P (f v)) : Reports P (note d >>= f) := reports_bind (reports_note h) hf

theorem reports_flatMap {steps : List (Outcome β)} (h : ∀ o ∈ steps, Reports P o) :
    ∀ d ∈ steps.flatMap diagnostics, P d := by
  intro d hd
  obtain ⟨o, ho, hd⟩ := List.mem_flatMap.mp hd
  exact h o ho d hd

theorem reports_collect {items : List γ} {f : γ × Nat → Outcome β}
    (h : ∀ x ∈ items, ∀ i, Reports P (f (x, i))) : Reports P (collect (items.zipIdx.map f)) := by
  refine reports_flatMap fun o ho => ?_
  obtain ⟨⟨x, i⟩, hx, rfl⟩ := List.mem_map.mp ho
  exact h x (List.mem_iff_getElem?.mpr ⟨i, List.mk_mem_zipIdx_iff_getElem?.mp hx⟩) i

theorem reports_collectSome {items : List γ} {f : γ × Nat → Outcome (Option β)}
    (h : ∀ x ∈ items, ∀ i, Reports P (f (x, i))) :
    Reports P (collectSome (items.zipIdx.map f)) := reports_collect h

/-! The steps made for the entries of a list, each with its place. -/

theorem forall₂_collect {R : β → γ → Prop} {f : β × Nat → Outcome γ}
    {items : List β} (h : ∀ x ∈ items, ∀ i, R x (f (x, i)).value) :
    List.Forall₂ R items (collect (items.zipIdx.map f)).value := by
  refine forall₂_of_zipIdx (s := 0) ?_
  rw [value_collect, List.map_map]
  exact forall₂_map_zipIdx (R := fun x _ y => R x y) h

theorem getElem?_collect (f : β × Nat → Outcome γ) (items : List β) (i : Nat) :
    (collect (items.zipIdx.map f)).value[i]? = items[i]?.map fun x => (f (x, i)).value := by
  simp [List.getElem?_zipIdx, Function.comp_def]

theorem mem_collect {f : β × Nat → Outcome γ} {items : List β} {y : γ}
    (h : y ∈ (collect (items.zipIdx.map f)).value) : ∃ x i, y = (f (x, i)).value := by
  rw [value_collect, List.map_map] at h
  obtain ⟨⟨x, i⟩, -, rfl⟩ := List.mem_map.mp h
  exact ⟨x, i, rfl⟩

theorem mem_collectSome {f : β × Nat → Outcome (Option γ)} {items : List β} {y : γ}
    (h : y ∈ (collectSome (items.zipIdx.map f)).value) :
    ∃ x i, (f (x, i)).value = some y := by
  rw [value_collectSome, List.filterMap_map] at h
  obtain ⟨⟨x, i⟩, -, hy⟩ := List.mem_filterMap.mp h
  exact ⟨x, i, hy⟩

end Partitura.Outcome
