import Partitura.Number.Binary64
import Partitura.Proofs.Json.Record
import Partitura.Proofs.Score.Settle
import Partitura.Proofs.Score.Shape
import Partitura.Proofs.Score.Sound

/-!
# Damaged documents in the score format

The fields of a score are read one by one and do not touch each other. So a
document is read as a whole exactly if each of its fields can be read alone, and
what can be read alone can be put together again. Salvaging keeps these fields
and the readable parts, and reports each of the others once, in their order.
-/

namespace Partitura

open Json

variable {α : Type}

namespace Score

/-! Fields of a score by name. -/

def withField (s : Score α) (name : String) (t : Score α) : Score α :=
  match name with
  | "formatId" => { s with format := t.format }
  | "version" => { s with version := t.version }
  | "bpm" => { s with bpm := t.bpm }
  | "keySignature" => { s with key := t.key }
  | "timeSignature" => { s with meter := t.meter }
  | "tempoMap" => { s with tempoMap := t.tempoMap }
  | "timeSignatureMap" => { s with meterMap := t.meterMap }
  | "keySignatureMap" => { s with keyMap := t.keyMap }
  | "metadata" => { s with metadata := t.metadata }
  | "audioGraph" => { s with graph := t.graph }
  | "connections" => { s with connections := t.connections }
  | "sequences" => { s with parts := t.parts }
  | "automation" => { s with automation := t.automation }
  | "annotations" => { s with remarks := t.remarks }
  | _ => s

def AgreeAt (name : String) (s t : Score α) : Prop :=
  match name with
  | "formatId" => s.format = t.format
  | "version" => s.version = t.version
  | "bpm" => s.bpm = t.bpm
  | "keySignature" => s.key = t.key
  | "timeSignature" => s.meter = t.meter
  | "tempoMap" => s.tempoMap = t.tempoMap
  | "timeSignatureMap" => s.meterMap = t.meterMap
  | "keySignatureMap" => s.keyMap = t.keyMap
  | "metadata" => s.metadata = t.metadata
  | "audioGraph" => s.graph = t.graph
  | "connections" => s.connections = t.connections
  | "sequences" => s.parts = t.parts
  | "automation" => s.automation = t.automation
  | "annotations" => s.remarks = t.remarks
  | _ => True

theorem agreeAt_refl (name : String) (s : Score α) : AgreeAt name s s := by
  unfold AgreeAt
  split <;> trivial

theorem agreeAt_withField (name : String) (s t : Score α) :
    AgreeAt name (s.withField name t) t := by
  unfold AgreeAt withField
  split <;> first | rfl | trivial

theorem agreeAt_withField_iff {name other : String} (hne : name ≠ other) (s t u : Score α) :
    AgreeAt name (s.withField other t) u ↔ AgreeAt name s u := by
  unfold withField
  split <;> (unfold AgreeAt; split <;> first | rfl | exact absurd rfl hne)

@[simp] theorem rejected_withField (s : Score α) (name : String) (t : Score α) :
    (s.withField name t).rejected = s.rejected := by
  unfold withField
  split <;> rfl

theorem agreeAt_rejected_iff (name : String) (s t : Score α) (rejected : List String) :
    AgreeAt name { s with rejected := rejected } t ↔ AgreeAt name s t := by
  unfold AgreeAt
  split <;> rfl

variable [Scalar α]

theorem readField_eq (s : Score α) (name : String) (j : Json α) :
    s.readField name j = s.withField name <$> blank.readField name j := by
  unfold readField
  split
  · cases asOption asString j <;> rfl
  · rfl
  · cases asOption asScalar j <;> rfl
  · cases asOption asString j <;> rfl
  · cases asOption asString j <;> rfl
  · cases asList TempoPoint.read j <;> rfl
  · cases asList MeterPoint.read j <;> rfl
  · cases asList KeyPoint.read j <;> rfl
  · cases (Metadata.read j : Except DecodeError Metadata) <;> rfl
  · cases asList GraphNode.read j <;> rfl
  · cases asList Connection.read j <;> rfl
  · cases asOption (asList Part.read) j <;> rfl
  · cases asList AutomationPoint.read j <;> rfl
  · cases asList Remark.read j <;> rfl
  · show Except.ok s = .ok (s.withField name blank)
    unfold withField
    split <;> first | rfl | contradiction

theorem readField_of_alone (s : Score α) {name : String} {j : Json α} {t : Score α}
    (h : blank.readField name j = .ok t) : s.readField name j = .ok (s.withField name t) := by
  rw [readField_eq, h]
  rfl

theorem alone_of_readField {s s' : Score α} {name : String} {j : Json α}
    (h : s.readField name j = .ok s') :
    ∃ t, blank.readField name j = .ok t ∧ s' = s.withField name t := by
  rw [readField_eq] at h
  obtain ⟨t, ht, rfl⟩ := map_ok h
  exact ⟨t, ht, rfl⟩

theorem read_obj (fields : List (String × Json α)) :
    read (.obj fields) = fields.foldlM (fun s f => s.readField f.1 f.2) blank := by
  show (fields.foldlM (fun s f => s.readField f.1 f.2) blank >>= fun s =>
    (Except.ok s).mapError DecodeError.missingField) = _
  cases fields.foldlM (fun s f => s.readField f.1 f.2) blank <;> rfl

theorem read_single (f : String × Json α) : read (.obj [f]) = blank.readField f.1 f.2 := by
  rw [read_obj, List.foldlM_cons]
  cases blank.readField f.1 f.2 <;> rfl

end Score

/-! A list of fields. -/

section Fields

variable [Scalar α] {fields : List (String × Json α)} {s s' : Score α}

theorem exists_fills (h : ∀ f ∈ fields, ∃ t, Score.read (.obj [f]) = .ok t) (s : Score α) :
    ∃ s', Fills Score.readField fields s s' := by
  induction fields generalizing s with
  | nil => exact ⟨s, fills_nil s⟩
  | cons f rest ih =>
    obtain ⟨t, ht⟩ := h f (List.mem_cons_self ..)
    rw [Score.read_single] at ht
    -- What `f` puts into the blank score it puts into `s`, and the rest starts from there.
    obtain ⟨s', hs'⟩ := ih (fun g hg => h g (List.mem_cons_of_mem _ hg)) (s.withField f.1 t)
    exact ⟨s', Fills.cons (s.readField_of_alone ht) hs'⟩

theorem Json.Fills.cons_inv {f : String × Json α} (h : Fills Score.readField (f :: fields) s s') :
    ∃ t, Score.read (.obj [f]) = .ok t ∧ Fills Score.readField fields (s.withField f.1 t) s' := by
  unfold Fills at h
  rw [List.foldlM_cons] at h
  obtain ⟨s₁, h₁, h⟩ := bind_ok h
  obtain ⟨t, ht, rfl⟩ := Score.alone_of_readField h₁
  rw [← Score.read_single] at ht
  exact ⟨t, ht, h⟩

theorem Json.Fills.alone (h : Fills Score.readField fields s s') :
    ∀ f ∈ fields, ∃ t, Score.read (.obj [f]) = .ok t := by
  induction fields generalizing s with
  | nil => exact nofun
  | cons f rest ih =>
    obtain ⟨t, ht, h⟩ := h.cons_inv
    intro g hg
    rcases List.mem_cons.mp hg with rfl | hg
    · exact ⟨t, ht⟩
    · exact ih h g hg

theorem Json.Fills.rejected (h : Fills Score.readField fields s s') : s'.rejected = s.rejected := by
  induction fields generalizing s with
  | nil =>
    cases h
    rfl
  | cons f rest ih =>
    obtain ⟨t, -, h⟩ := h.cons_inv
    rw [ih h, Score.rejected_withField]

theorem Json.Fills.agreeAt_iff (h : Fills Score.readField fields s s') {name : String}
    (hname : name ∉ fields.map Prod.fst) (u : Score α) :
    s'.AgreeAt name u ↔ s.AgreeAt name u := by
  induction fields generalizing s with
  | nil =>
    cases h
    rfl
  | cons f rest ih =>
    obtain ⟨t, -, h⟩ := h.cons_inv
    have hne : name ≠ f.1 := fun he => hname (he ▸ List.mem_cons_self ..)
    rw [ih h fun hm => hname (List.mem_cons_of_mem _ hm), Score.agreeAt_withField_iff hne]

theorem Json.Fills.agreeAt (h : Fills Score.readField fields s s')
    (hn : (fields.map Prod.fst).Nodup) {f : String × Json α} (hf : f ∈ fields) {t : Score α}
    (ht : Score.read (.obj [f]) = .ok t) : s'.AgreeAt f.1 t := by
  induction fields generalizing s with
  | nil => cases hf
  | cons g rest ih =>
    obtain ⟨u, hu, h⟩ := h.cons_inv
    obtain ⟨hg, hrest⟩ := List.nodup_cons.mp hn
    rcases List.mem_cons.mp hf with rfl | hf
    · rw [ht] at hu
      cases hu
      exact (h.agreeAt_iff hg t).mpr (Score.agreeAt_withField _ _ _)
    · exact ih h hrest hf

end Fields

/-! Lists with unreadable items. -/

theorem mapM_filter_isOk {β : Type} (read : Json α → Except DecodeError β)
    (items : List (Json α)) :
    (items.filter fun j => (read j).isOk).mapM read =
      .ok (items.filterMap fun j => (read j).toOption) := by
  induction items with
  | nil => rfl
  | cons j rest ih =>
    cases h : read j with
    | error e => simpa [List.filter_cons, h, Except.isOk, Except.toBool, Except.toOption] using ih
    | ok v =>
      have hkept : (j :: rest).filter (fun j => (read j).isOk) =
          j :: rest.filter fun j => (read j).isOk := by
        simp [h, Except.isOk, Except.toBool]
      rw [hkept, List.mapM_cons, h, ih]
      simp [h, Except.toOption]
      rfl

theorem isOk_of_mapM {β : Type} {read : Json α → Except DecodeError β} {items : List (Json α)}
    {vs : List β} (h : items.mapM read = .ok vs) : ∀ j ∈ items, (read j).isOk = true := by
  induction items generalizing vs with
  | nil => exact nofun
  | cons j rest ih =>
    rw [List.mapM_cons] at h
    obtain ⟨v, hv, h⟩ := bind_ok h
    obtain ⟨vs', hvs, -⟩ := bind_ok h
    intro i hi
    rcases List.mem_cons.mp hi with rfl | hi
    · rw [hv]
      rfl
    · exact ih hvs i hi

/-! Places that cannot be read. -/

inductive Place where
  | field (name : String)
  | part (index : Nat)

namespace Place

def position (keys : List String) : Place → Nat × Nat
  | .field name => (keys.idxOf name, 0)
  | .part index => (keys.idxOf "sequences", index)

def Before (keys : List String) (p q : Place) : Prop :=
  (p.position keys).1 < (q.position keys).1 ∨
    (p.position keys).1 = (q.position keys).1 ∧ (p.position keys).2 < (q.position keys).2

end Place

def IsPartList (f : String × Json α) : Prop := ∃ items, f = ("sequences", .arr items)

variable [Scalar α]

inductive Fault (fields : List (String × Json α)) : Place → String → Prop where
  | field {name : String} {j : Json α} {e : DecodeError} : (name, j) ∈ fields →
      ¬ IsPartList (name, j) →
      (Score.read (.obj [(name, j)]) : Except DecodeError (Score α)) = .error e →
      Fault fields (.field name) (name ++ ": " ++ e.message)
  | part {items : List (Json α)} {index : Nat} {item : Json α} {e : DecodeError} :
      ("sequences", .arr items) ∈ fields → items[index]? = some item →
      (Part.read item : Except DecodeError (Part α)) = .error e →
      Fault fields (.part index) (partFailure index item e)

def reportsOn : String × Json α → List (Place × String)
  | ("sequences", .arr items) => items.zipIdx.filterMap fun (item, i) =>
    match (Part.read item : Except DecodeError (Part α)) with
    | .error e => some (.part i, partFailure i item e)
    | .ok _ => none
  | (name, j) =>
    match (Score.read (.obj [(name, j)]) : Except DecodeError (Score α)) with
    | .error e => [(.field name, name ++ ": " ++ e.message)]
    | .ok _ => []

/-- What becomes of one field: a list of parts loses the unreadable ones, and any
other field is kept or reported. -/
theorem Salvage.add_cases (f : String × Json α) :
    (∃ items, f = ("sequences", .arr items) ∧ ∀ s : Salvage α, s.add f =
      ⟨s.kept ++ [("sequences", .arr (items.filter fun item =>
          (Part.read item : Except DecodeError (Part α)).isOk))],
        s.rejected ++ (reportsOn f).map Prod.snd⟩) ∨
    (¬ IsPartList f ∧ (∃ t, Score.read (.obj [f]) = .ok t) ∧ reportsOn f = [] ∧
      ∀ s : Salvage α, s.add f = ⟨s.kept ++ [f], s.rejected⟩) ∨
    (¬ IsPartList f ∧ ∃ e, (Score.read (.obj [f]) : Except DecodeError (Score α)) = .error e ∧
      reportsOn f = [(.field f.1, f.1 ++ ": " ++ e.message)] ∧
      ∀ s : Salvage α, s.add f = ⟨s.kept, s.rejected ++ [f.1 ++ ": " ++ e.message]⟩) := by
  unfold reportsOn
  split
  · rename_i items
    refine .inl ⟨items, rfl, fun s => ?_⟩
    simp only [Salvage.add, salvageParts, List.map_filterMap]
    refine congrArg (fun g => Salvage.mk _ (s.rejected ++ items.zipIdx.filterMap g))
      (funext fun x => ?_)
    cases (Part.read x.1 : Except DecodeError (Part α)) <;> rfl
  · rename_i name j hparts
    have hnot : ¬ IsPartList (name, j) := by
      rintro ⟨items, h⟩
      cases h
      exact hparts items rfl rfl
    cases h : (Score.read (.obj [(name, j)]) : Except DecodeError (Score α)) with
    | ok t =>
      refine .inr (.inl ⟨hnot, ⟨t, rfl⟩, rfl, fun s => ?_⟩)
      unfold Salvage.add
      split
      · rename_i items hf
        exact absurd ⟨items, hf⟩ hnot
      · rename_i hf
        cases hf
        rw [h]
    | error e =>
      refine .inr (.inr ⟨hnot, e, rfl, rfl, fun s => ?_⟩)
      unfold Salvage.add
      split
      · rename_i items hf
        exact absurd ⟨items, hf⟩ hnot
      · rename_i hf
        cases hf
        rw [h]

def keptOf (f : String × Json α) : List (String × Json α) := (Salvage.add ⟨[], []⟩ f).kept

theorem Salvage.add_eq (s : Salvage α) (f : String × Json α) :
    s.add f = ⟨s.kept ++ keptOf f, s.rejected ++ (reportsOn f).map Prod.snd⟩ := by
  unfold keptOf
  rcases add_cases f with ⟨items, rfl, h⟩ | ⟨-, -, hr, h⟩ | ⟨-, e, -, hr, h⟩
  · rw [h s, h]
    rfl
  · rw [h s, h, hr]
    simp
  · rw [h s, h, hr]
    simp

theorem Salvage.foldl_add (fields : List (String × Json α)) (s : Salvage α) :
    fields.foldl add s =
      ⟨s.kept ++ fields.flatMap keptOf, s.rejected ++ (fields.flatMap reportsOn).map Prod.snd⟩ := by
  induction fields generalizing s with
  | nil => simp
  | cons f rest ih =>
    rw [List.foldl_cons, ih, add_eq]
    simp

/-! What is kept. -/

theorem read_parts (items : List (Json α)) :
    Score.read (.obj [("sequences", .arr items)]) =
      (fun ps => { Score.blank with parts := some ps }) <$> items.mapM Part.read := by
  rw [Score.read_single]
  show (some <$> items.mapM Part.read >>= _) = _
  cases items.mapM (Part.read : Json α → _) <;> rfl

theorem readable_parts_iff (items : List (Json α)) :
    (∃ t, Score.read (.obj [("sequences", .arr items)]) = .ok t) ↔
      ∀ item ∈ items, (Part.read item : Except DecodeError (Part α)).isOk = true := by
  rw [read_parts]
  constructor
  · rintro ⟨t, ht⟩
    obtain ⟨ps, hps, -⟩ := map_ok ht
    exact isOk_of_mapM hps
  · intro h
    have hps := mapM_filter_isOk (Part.read : Json α → _) items
    rw [List.filter_eq_self.mpr h] at hps
    rw [hps]
    exact ⟨_, rfl⟩

theorem readable_of_mem_keptOf {f g : String × Json α} (h : g ∈ keptOf f) :
    ∃ t, Score.read (.obj [g]) = .ok t := by
  unfold keptOf at h
  rcases Salvage.add_cases f with ⟨items, rfl, hs⟩ | ⟨-, ht, -, hs⟩ | ⟨-, e, -, -, hs⟩
  · rw [hs] at h
    rw [List.mem_singleton.mp h, read_parts, mapM_filter_isOk]
    exact ⟨_, rfl⟩
  · rw [hs] at h
    rw [List.mem_singleton.mp h]
    exact ht
  · rw [hs] at h
    cases h

theorem keys_keptOf (f : String × Json α) : List.Sublist ((keptOf f).map Prod.fst) [f.1] := by
  unfold keptOf
  rcases Salvage.add_cases f with ⟨items, rfl, hs⟩ | ⟨-, -, -, hs⟩ | ⟨-, e, -, -, hs⟩
  · rw [hs]
    exact List.Sublist.refl _
  · rw [hs]
    exact List.Sublist.refl _
  · rw [hs]
    exact List.nil_sublist _

theorem keys_flatMap_keptOf (fields : List (String × Json α)) :
    List.Sublist ((fields.flatMap keptOf).map Prod.fst) (fields.map Prod.fst) := by
  induction fields with
  | nil => exact List.Sublist.refl _
  | cons f rest ih =>
    rw [List.flatMap_cons, List.map_append, List.map_cons, ← List.singleton_append]
    exact (keys_keptOf f).append ih

theorem wellFormed_keptOf {f g : String × Json α} (hf : f.2.WellFormed) (hg : g ∈ keptOf f) :
    g.2.WellFormed := by
  unfold keptOf at hg
  rcases Salvage.add_cases f with ⟨items, rfl, hs⟩ | ⟨-, -, -, hs⟩ | ⟨-, e, -, -, hs⟩
  · rw [hs] at hg
    rw [List.mem_singleton.mp hg]
    exact .arr fun i hi => hf.items i (List.mem_filter.mp hi).1
  · rw [hs] at hg
    rw [List.mem_singleton.mp hg]
    exact hf
  · rw [hs] at hg
    cases hg

theorem keptOf_of_error {f : String × Json α} (hf : ¬ IsPartList f) {e : DecodeError}
    (he : (Score.read (.obj [f]) : Except DecodeError (Score α)) = .error e) : keptOf f = [] := by
  unfold keptOf
  rcases Salvage.add_cases f with ⟨items, rfl, -⟩ | ⟨-, ⟨t, ht⟩, -, -⟩ | ⟨-, e', -, -, hs⟩
  · exact absurd ⟨items, rfl⟩ hf
  · rw [he] at ht
    cases ht
  · rw [hs]

theorem not_mem_keys_of_error {fields : List (String × Json α)}
    (hn : (fields.map Prod.fst).Nodup) {f : String × Json α} (hf : f ∈ fields)
    (hp : ¬ IsPartList f) {e : DecodeError}
    (he : (Score.read (.obj [f]) : Except DecodeError (Score α)) = .error e) :
    f.1 ∉ (fields.flatMap keptOf).map Prod.fst := by
  intro hm
  obtain ⟨g, hg, hgf⟩ := List.mem_map.mp hm
  obtain ⟨f', hf', hg⟩ := List.mem_flatMap.mp hg
  have hkey : g.1 = f'.1 :=
    List.mem_singleton.mp ((keys_keptOf f').subset (List.mem_map_of_mem hg))
  -- Keys are distinct, so a field that is kept under this key is the unreadable field itself.
  have hsame : f' = f := by
    have h := lookup_of_mem hn hf'
    rw [← hkey, hgf, lookup_of_mem hn hf] at h
    exact Prod.ext (hkey.symm.trans hgf) (Option.some.inj h).symm
  rw [hsame, keptOf_of_error hp he] at hg
  cases hg

theorem keptOf_parts (items : List (Json α)) : keptOf ("sequences", .arr items) =
    [("sequences", .arr (items.filter fun item =>
      (Part.read item : Except DecodeError (Part α)).isOk))] := rfl

theorem keptOf_eq_self {f : String × Json α} (h : ∃ t, Score.read (.obj [f]) = .ok t) :
    keptOf f = [f] := by
  unfold keptOf
  rcases Salvage.add_cases f with ⟨items, rfl, hs⟩ | ⟨-, -, -, hs⟩ | ⟨-, e, he, -, -⟩
  · rw [hs, List.filter_eq_self.mpr ((readable_parts_iff items).mp h)]
    rfl
  · rw [hs]
    rfl
  · obtain ⟨t, ht⟩ := h
    rw [ht] at he
    cases he

/-! What is reported. -/

theorem reportsOn_of_error {f : String × Json α} (hf : ¬ IsPartList f) {e : DecodeError}
    (he : (Score.read (.obj [f]) : Except DecodeError (Score α)) = .error e) :
    reportsOn f = [(.field f.1, f.1 ++ ": " ++ e.message)] := by
  rcases Salvage.add_cases f with ⟨items, rfl, -⟩ | ⟨-, ⟨t, ht⟩, -, -⟩ | ⟨-, e', he', hr, -⟩
  · exact absurd ⟨items, rfl⟩ hf
  · rw [he] at ht
    cases ht
  · rw [he] at he'
    cases he'
    exact hr

theorem mem_reportsOn_parts {items : List (Json α)} {r : Place × String} :
    r ∈ reportsOn ("sequences", .arr items) ↔ ∃ index item e, items[index]? = some item ∧
      (Part.read item : Except DecodeError (Part α)) = .error e ∧
      r = (.part index, partFailure index item e) := by
  unfold reportsOn
  simp only [List.mem_filterMap]
  constructor
  · rintro ⟨⟨item, index⟩, hi, h⟩
    dsimp only at h
    split at h
    · rename_i e he
      cases h
      exact ⟨index, item, e, List.mk_mem_zipIdx_iff_getElem?.mp hi, he, rfl⟩
    · cases h
  · rintro ⟨index, item, e, hi, he, rfl⟩
    refine ⟨(item, index), List.mk_mem_zipIdx_iff_getElem?.mpr hi, ?_⟩
    simp only [he]

theorem mem_reports_iff (fields : List (String × Json α)) (p : Place) (message : String) :
    (p, message) ∈ fields.flatMap reportsOn ↔ Fault fields p message := by
  rw [List.mem_flatMap]
  constructor
  · rintro ⟨f, hf, h⟩
    rcases Salvage.add_cases f with ⟨items, rfl, -⟩ | ⟨-, -, hr, -⟩ | ⟨hnot, e, he, hr, -⟩
    · obtain ⟨index, item, e, hi, he, heq⟩ := mem_reportsOn_parts.mp h
      cases heq
      exact .part hf hi he
    · rw [hr] at h
      cases h
    · rw [hr] at h
      cases List.mem_singleton.mp h
      exact .field hf hnot he
  · intro h
    cases h with
    | field hf hnot he =>
      exact ⟨_, hf, by rw [reportsOn_of_error hnot he]; exact List.mem_singleton_self _⟩
    | part hf hi he => exact ⟨_, hf, mem_reportsOn_parts.mpr ⟨_, _, _, hi, he, rfl⟩⟩

theorem reportsOn_eq_nil_iff (f : String × Json α) :
    reportsOn f = [] ↔ ∃ t, Score.read (.obj [f]) = .ok t := by
  rcases Salvage.add_cases f with ⟨items, rfl, -⟩ | ⟨-, ht, hr, -⟩ | ⟨-, e, he, hr, -⟩
  · rw [readable_parts_iff, List.eq_nil_iff_forall_not_mem]
    constructor
    · intro h item hitem
      obtain ⟨index, hi⟩ := List.mem_iff_getElem?.mp hitem
      cases hp : (Part.read item : Except DecodeError (Part α)) with
      | error e => exact absurd (mem_reportsOn_parts.mpr ⟨index, item, e, hi, hp, rfl⟩) (h _)
      | ok p => rfl
    · intro h r hr
      obtain ⟨index, item, e, hi, he, -⟩ := mem_reportsOn_parts.mp hr
      have hok := h item (List.mem_iff_getElem?.mpr ⟨index, hi⟩)
      rw [he] at hok
      cases hok
  · simp only [hr, ht]
  · simp [hr, he]

theorem position_reportsOn {f : String × Json α} {r : Place × String} (h : r ∈ reportsOn f)
    (keys : List String) : (r.1.position keys).1 = keys.idxOf f.1 := by
  rcases Salvage.add_cases f with ⟨items, rfl, -⟩ | ⟨-, -, hr, -⟩ | ⟨-, e, -, hr, -⟩
  · obtain ⟨index, item, e, -, -, rfl⟩ := mem_reportsOn_parts.mp h
    rfl
  · rw [hr] at h
    cases h
  · rw [hr] at h
    rw [List.mem_singleton.mp h]
    rfl

theorem pairwise_zipIdx {β : Type} (items : List β) :
    items.zipIdx.Pairwise fun a b => a.2 < b.2 := by
  rw [List.pairwise_iff_getElem]
  intro i j hi hj hij
  simpa using hij

theorem pairwise_reportsOn (f : String × Json α) (keys : List String) :
    (reportsOn f).Pairwise fun a b => a.1.Before keys b.1 := by
  rcases Salvage.add_cases f with ⟨items, rfl, -⟩ | ⟨-, -, hr, -⟩ | ⟨-, e, -, hr, -⟩
  · unfold reportsOn
    refine List.pairwise_filterMap.mpr ((pairwise_zipIdx items).imp ?_)
    intro x y hxy a ha b hb
    dsimp only at ha hb
    split at ha
    · cases ha
      split at hb
      · cases hb
        exact .inr ⟨rfl, hxy⟩
      · cases hb
    · cases ha
  · rw [hr]
    exact List.Pairwise.nil
  · rw [hr]
    exact List.pairwise_singleton _ _

theorem pairwise_idxOf {keys : List String} (h : keys.Nodup) :
    keys.Pairwise fun a b => keys.idxOf a < keys.idxOf b := by
  induction keys with
  | nil => exact List.Pairwise.nil
  | cons k rest ih =>
    obtain ⟨hk, hrest⟩ := List.nodup_cons.mp h
    have hidx {a : String} (ha : a ∈ rest) : (k :: rest).idxOf a = rest.idxOf a + 1 := by
      have hne : (k == a) = false := beq_false_of_ne fun he => hk (he ▸ ha)
      rw [List.idxOf_cons, hne]
      rfl
    refine List.pairwise_cons.mpr ⟨fun a ha => ?_, (ih hrest).imp_of_mem fun ha hb hab => ?_⟩
    · rw [hidx ha, List.idxOf_cons_self]
      exact Nat.succ_pos _
    · rw [hidx ha, hidx hb]
      exact Nat.succ_lt_succ hab

/-- The reports come in the order of the document, one for each place. -/
theorem pairwise_reports {fields : List (String × Json α)} (hn : (fields.map Prod.fst).Nodup) :
    ((fields.flatMap reportsOn).map Prod.fst).Pairwise (Place.Before (fields.map Prod.fst)) := by
  refine List.pairwise_map.mpr (List.pairwise_flatMap.mpr ⟨fun f _ => pairwise_reportsOn f _, ?_⟩)
  refine (List.pairwise_map.mp (pairwise_idxOf hn)).imp ?_
  intro f g hfg a ha b hb
  refine .inl ?_
  rw [position_reportsOn ha, position_reportsOn hb]
  exact hfg

/-! Salvaging. -/

/-- A score that holds what can be read of the fields of a document, each as it is
read alone, and reports each place that cannot be read once and in its order. -/
structure Salvaged (fields : List (String × Json α)) (s : Score α) : Prop where
  reassembled : ∃ t, Score.read (.obj (fields.foldl Salvage.add ⟨[], []⟩).kept) = .ok t ∧
    s = { t with rejected := s.rejected }
  field : ∀ f ∈ fields, ∀ t, Score.read (.obj [f]) = .ok t → s.AgreeAt f.1 t
  parts : ∀ items, ("sequences", .arr items) ∈ fields →
    s.parts = some (items.filterMap fun item => (Part.read item).toOption)
  missing : ∀ name, (name ∉ fields.map Prod.fst ∨ ∃ message, Fault fields (.field name) message) →
    s.AgreeAt name .blank
  reports : ∃ reports : List (Place × String),
    s.rejected = reports.map Prod.snd ∧
    (reports.map Prod.fst).Pairwise (Place.Before (fields.map Prod.fst)) ∧
    ∀ p message, (p, message) ∈ reports ↔ Fault fields p message

theorem salvage_obj (fields : List (String × Json α)) : ∃ t,
    Fills Score.readField (fields.flatMap keptOf) .blank t ∧
      salvage (.obj fields) = { t with rejected := (fields.flatMap reportsOn).map Prod.snd } := by
  have hkept : ∀ f ∈ fields.flatMap keptOf, ∃ t, Score.read (.obj [f]) = .ok t := by
    intro g hg
    obtain ⟨f, -, hg⟩ := List.mem_flatMap.mp hg
    exact readable_of_mem_keptOf hg
  obtain ⟨t, ht⟩ := exists_fills hkept .blank
  refine ⟨t, ht, ?_⟩
  have hread : Score.read (.obj (fields.flatMap keptOf)) = .ok t := by
    rw [Score.read_obj]
    exact ht
  simp [salvage, Salvage.foldl_add, hread, Except.toOption]

theorem salvaged (fields : List (String × Json α)) (hn : (fields.map Prod.fst).Nodup) :
    Salvaged fields (salvage (.obj fields)) := by
  obtain ⟨t, ht, hs⟩ := salvage_obj fields
  have hkeys := (keys_flatMap_keptOf fields).nodup hn
  have hagree {name : String} {u : Score α} (h : t.AgreeAt name u) :
      (salvage (.obj fields)).AgreeAt name u := by
    rw [hs]
    exact (Score.agreeAt_rejected_iff name t u _).mpr h
  have hparts (items : List (Json α)) (hf : ("sequences", .arr items) ∈ fields) :
      t.parts = some (items.filterMap fun item => (Part.read item).toOption) := by
    -- The list is kept without its unreadable items, so `field` says nothing about it.
    have hm : ("sequences", .arr (items.filter fun item =>
        (Part.read item : Except DecodeError (Part α)).isOk)) ∈ fields.flatMap keptOf :=
      List.mem_flatMap.mpr ⟨_, hf, by rw [keptOf_parts]; exact List.mem_singleton_self _⟩
    refine ht.agreeAt hkeys hm (t := { Score.blank with parts := some _ }) ?_
    rw [read_parts, mapM_filter_isOk]
    rfl
  constructor
  case reassembled =>
    refine ⟨t, ?_, ?_⟩
    · rw [Salvage.foldl_add, List.nil_append, Score.read_obj]
      exact ht
    · rw [hs]
  case field =>
    intro f hf u hu
    refine hagree (ht.agreeAt hkeys (List.mem_flatMap.mpr ⟨f, hf, ?_⟩) hu)
    rw [keptOf_eq_self ⟨u, hu⟩]
    exact List.mem_singleton_self f
  case parts =>
    intro items hf
    rw [hs]
    exact hparts items hf
  case missing =>
    intro name hname
    refine hagree ((ht.agreeAt_iff ?_ _).mpr (Score.agreeAt_refl name _))
    rcases hname with hname | ⟨message, hfault⟩
    · exact fun hm => hname ((keys_flatMap_keptOf fields).subset hm)
    · cases hfault with
      | field hf hnot he => exact not_mem_keys_of_error hn hf hnot he
  case reports =>
    refine ⟨_, congrArg Score.rejected hs, pairwise_reports hn, mem_reports_iff fields⟩

theorem salvage_of_read {fields : List (String × Json α)} {s : Score α}
    (h : Score.read (.obj fields) = .ok s) : salvage (.obj fields) = s ∧ s.rejected = [] := by
  rw [Score.read_obj] at h
  have hfills : Fills Score.readField fields .blank s := h
  have hkept : fields.flatMap keptOf = fields := by
    rw [List.flatMap_def, List.map_congr_left fun f hf => keptOf_eq_self (hfills.alone f hf),
      ← List.flatMap_def]
    exact List.flatMap_singleton' fields
  have hreports : fields.flatMap reportsOn = [] :=
    List.flatMap_eq_nil_iff.mpr fun f hf => (reportsOn_eq_nil_iff f).mpr (hfills.alone f hf)
  obtain ⟨t, ht, hs⟩ := salvage_obj fields
  rw [hkept] at ht
  have hts : t = s := Except.ok.inj (ht.symm.trans h)
  rw [hreports, hts] at hs
  have hrejected : s.rejected = [] := hfills.rejected
  refine ⟨hs.trans ?_, hrejected⟩
  rw [List.map_nil, ← hrejected]

theorem salvage_rejected_ne_nil {fields : List (String × Json α)} {e : DecodeError}
    (h : (Score.read (.obj fields) : Except DecodeError (Score α)) = .error e) :
    (salvage (.obj fields) : Score α).rejected ≠ [] := by
  obtain ⟨t, -, hs⟩ := salvage_obj fields
  rw [hs]
  intro hnil
  have hreports := List.flatMap_eq_nil_iff.mp (List.map_eq_nil_iff.mp hnil)
  obtain ⟨s, hs⟩ := exists_fills
    (fun f hf => (reportsOn_eq_nil_iff f).mp (hreports f hf)) Score.blank
  rw [Score.read_obj] at h
  cases h.symm.trans hs

theorem readDocument_eq_salvage {j : Json α} {settled : List (String × Json α)}
    (h : settlePitches j = .obj settled) : readDocument j = salvage (.obj settled) := by
  rw [readDocument, h]
  cases hr : (Score.read (.obj settled) : Except DecodeError (Score α)) with
  | ok s => exact (salvage_of_read hr).1.symm
  | error e => rfl

/-- A document in the score format, once its pitches are settled, is either read as
a whole, and then salvaging gives the same score, or salvaged, and then the score
is marked as damaged. Salvaging loses and invents nothing in either case. -/
theorem normalize_document (fields : List (String × Json α)) (hn : (fields.map Prod.fst).Nodup)
    (hd : isDocument (.obj fields) = true) : ∃ settled,
    settlePitches (.obj fields) = .obj settled ∧
    settled.map Prod.fst = fields.map Prod.fst ∧
    (∀ s : Score α, Score.read (.obj settled) = .ok s →
      normalize (.obj fields) = s ∧ salvage (.obj settled) = s ∧ s.rejected = []) ∧
    (∀ e, (Score.read (.obj settled) : Except DecodeError (Score α)) = .error e →
      normalize (.obj fields) = salvage (.obj settled) ∧
      (normalize (.obj fields)).rejected ≠ [] ∧
      (normalize (.obj fields)).check.success = false) ∧
    Salvaged settled (salvage (.obj settled)) := by
  obtain ⟨settled, hsettled, hkeys⟩ := settlePitches_obj fields
  have hnormal : normalize (.obj fields) = readDocument (.obj fields) :=
    normalize_of_isDocument hd
  refine ⟨settled, hsettled, hkeys, fun s hs => ?_, fun e he => ?_, salvaged settled (hkeys ▸ hn)⟩
  · refine ⟨?_, salvage_of_read hs⟩
    rw [hnormal, readDocument, hsettled, hs]
  · have hsalvage : normalize (.obj fields) = salvage (.obj settled) := by
      rw [hnormal, readDocument, hsettled, he]
    have hrejected := salvage_rejected_ne_nil he
    refine ⟨hsalvage, by rwa [hsalvage], Bool.eq_false_iff.mpr fun hsuccess => ?_⟩
    have hsound := (Score.clean_findings _).mp ((success_ofFindings _).mp hsuccess)
    rw [hsalvage] at hsound
    exact hrejected hsound.rejected

theorem normalize_document_damaged :
    let fields : List (String × Json Float) :=
      [("formatId", .str formatName), ("bpm", .str "fast"), ("sequences", .arr [.int 3, .obj []])]
    (fields.map Prod.fst).Nodup ∧ isDocument (.obj fields) = true ∧
      (normalize (.obj fields)).rejected ≠ [] ∧
      (normalize (.obj fields)).check.success = false ∧
      (normalize (.obj fields)).parts = some [Part.labelled "" none] := by
  intro fields
  have hn : (fields.map Prod.fst).Nodup := by decide
  have hd : isDocument (.obj fields) = true := by decide
  obtain ⟨settled, hsettled, -, -, hdamaged, hsalvaged⟩ := normalize_document fields hn hd
  have hsame : settlePitches (.obj fields) = .obj fields := rfl
  cases hsame.symm.trans hsettled
  obtain ⟨hsalvage, hrejected, hcheck⟩ := hdamaged _ rfl
  refine ⟨hn, hd, hrejected, hcheck, ?_⟩
  rw [hsalvage]
  exact hsalvaged.parts [.int 3, .obj []] (by simp [fields])

end Partitura
