import Partitura.Controllers.Document
import Partitura.Proofs.Json.Record

/-!
# Controller maps in order

A map that is read from a document is in order, at both of its levels, and its controllers are
bytes. Such a map is read back from its document. Joining keeps the order, and joined to the same
map once more, what has come of it stays as it is.
-/

namespace Partitura

def ControllerEntry.Tidy : ControllerEntry → Prop
  | .controller number => number ≤ 255
  | .table entries => Sorted.Ascending entries ∧ ∀ e ∈ entries, e.2 ≤ 255

structure ControllerMap.Tidy (m : ControllerMap) : Prop where
  ascending : Sorted.Ascending m.entries
  entries : ∀ e ∈ m.entries, e.2.Tidy

namespace ControllerMap

/-! ## Maps put together -/

theorem tidy_empty : empty.Tidy := ⟨Sorted.ascending_nil, fun _ he => nomatch he⟩

theorem Tidy.insert {m : ControllerMap} (h : m.Tidy) (key : String) {e : ControllerEntry}
    (he : e.Tidy) : Tidy ⟨Sorted.insert key e m.entries⟩ := by
  refine ⟨Sorted.ascending_insert key e h.ascending, fun f hf => ?_⟩
  rcases Sorted.mem_insert hf with rfl | hf
  · exact he
  · exact h.entries f hf

theorem Tidy.get? {m : ControllerMap} (h : m.Tidy) {key : String} {e : ControllerEntry}
    (he : Sorted.get? key m.entries = some e) : e.Tidy :=
  h.entries _ ((Sorted.get?_eq_some_iff h.ascending.distinct).mp he)

theorem Tidy.set {m : ControllerMap} (h : m.Tidy) (parameter : String) {number : Nat}
    (hnumber : number ≤ 255) : (m.set parameter number).Tidy :=
  h.insert parameter hnumber

theorem Tidy.setFor {m : ControllerMap} (h : m.Tidy) (kind : DeviceKind) (parameter : String)
    {number : Nat} (hnumber : number ≤ 255) : (m.setFor kind parameter number).Tidy := by
  refine h.insert kind.text ?_
  have hinsert {table : Sorted Nat} (ht : ControllerEntry.Tidy (.table table)) :
      ControllerEntry.Tidy (.table (Sorted.insert parameter number table)) := by
    refine ⟨Sorted.ascending_insert parameter number ht.1, fun e he => ?_⟩
    rcases Sorted.mem_insert he with rfl | he
    · exact hnumber
    · exact ht.2 e he
  split
  · next heq => exact hinsert (h.get? heq)
  · exact hinsert ⟨Sorted.ascending_nil, fun _ he => nomatch he⟩

theorem tidy_standard : standard.Tidy := by
  have hshared (l : List (String × Nat)) (hl : ∀ e ∈ l, e.2 ≤ 255) :
      (l.foldl (fun (m : ControllerMap) e => m.set e.1 e.2) empty).Tidy :=
    List.foldlRecOn l _ tidy_empty fun _ hm e he => hm.set e.1 (hl e he)
  unfold standard
  dsimp only
  refine (((((hshared _ ?_).setFor _ _ ?_).setFor _ _ ?_).setFor _ _ ?_).setFor _ _ ?_).setFor
    _ _ ?_ <;> decide

/-! ## Joining -/

theorem union_eq {β : Type} (base overlay : Sorted β) :
    Sorted.union base overlay = Sorted.overlayWith (fun _ v => v) base overlay := rfl

theorem Tidy.mergeEntry {e : ControllerEntry} (he : e.Tidy) {o : Option ControllerEntry}
    (ho : ∀ b ∈ o, b.Tidy) : (mergeEntry o e).Tidy := by
  unfold ControllerMap.mergeEntry
  split
  · next base overlay =>
    have hbase := ho _ rfl
    rw [union_eq]
    exact ⟨Sorted.ascending_overlayWith hbase.1 _,
      Sorted.forall_overlayWith (P := (· ≤ 255)) hbase.2 fun e hmem _ _ => he.2 e hmem⟩
  · exact he

theorem Tidy.merge {m other : ControllerMap} (hm : m.Tidy) (ho : other.Tidy) :
    (m.merge other).Tidy :=
  ⟨Sorted.ascending_overlayWith hm.ascending _,
    Sorted.forall_overlayWith hm.entries fun e he _ hb => Tidy.mergeEntry (ho.entries e he) hb⟩

theorem union_union {β : Type} {base overlay : Sorted β} (hb : Sorted.Ascending base)
    (ho : Sorted.Ascending overlay) :
    Sorted.union base (Sorted.union base overlay) = Sorted.union base overlay :=
  Sorted.overlayWith_overlayWith (f := fun _ v => v) hb ho (fun _ _ => rfl) fun _ _ _ _ => rfl

theorem union_self {β : Type} {base : Sorted β} (hb : Sorted.Ascending base) :
    Sorted.union base base = base :=
  union_union hb Sorted.ascending_nil

theorem mergeEntry_self {e : ControllerEntry} (h : e.Tidy) : mergeEntry (some e) e = e := by
  cases e with
  | controller number => rfl
  | table entries => exact congrArg ControllerEntry.table (union_self h.1)

theorem mergeEntry_mergeEntry {e : ControllerEntry} (he : e.Tidy) {o : Option ControllerEntry}
    (ho : ∀ b ∈ o, b.Tidy) : mergeEntry o (mergeEntry o e) = mergeEntry o e := by
  cases o with
  | none => rfl
  | some b =>
    cases b with
    | controller number => rfl
    | table base =>
      cases e with
      | controller number => rfl
      | table overlay => exact congrArg ControllerEntry.table (union_union (ho _ rfl).1 he.1)

theorem merge_merge {m other : ControllerMap} (hm : m.Tidy) (ho : other.Tidy) :
    m.merge (m.merge other) = m.merge other := by
  refine congrArg ControllerMap.mk (Sorted.overlayWith_overlayWith hm.ascending ho.ascending
    (fun e he => mergeEntry_self (hm.entries e he)) fun e he o hbase => ?_)
  refine mergeEntry_mergeEntry (ho.entries e he) fun b hb => ?_
  obtain ⟨d, hd, rfl⟩ := hbase b hb
  exact hm.entries d hd

end ControllerMap

/-! ## Documents -/

section Documents

variable {α : Type} [Scalar α]

open Json

theorem tidy_entry_read {j : Json α} {e : ControllerEntry} (h : ControllerEntry.read j = .ok e) :
    e.Tidy := by
  rcases asOneOf_ok h with h | h
  · obtain ⟨n, hn, rfl⟩ := map_ok h
    exact Int.ofNat_le.mp (natural_ok hn)
  · obtain ⟨entries, hentries, rfl⟩ := map_ok h
    obtain ⟨hascending, hread⟩ := asTable_ok hentries
    refine ⟨hascending, fun e he => ?_⟩
    obtain ⟨i, hi⟩ := hread e he
    exact Int.ofNat_le.mp (natural_ok hi)

theorem tidy_read {j : Json α} {m : ControllerMap} (h : ControllerMap.read j = .ok m) :
    m.Tidy := by
  obtain ⟨entries, hentries, rfl⟩ := map_ok h
  obtain ⟨hascending, hread⟩ := asTable_ok hentries
  refine ⟨hascending, fun e he => ?_⟩
  obtain ⟨i, hi⟩ := hread e he
  exact tidy_entry_read hi

theorem entry_read_toJson {e : ControllerEntry} (h : e.Tidy) :
    ControllerEntry.read (e.toJson : Json α) = .ok e := by
  cases e with
  | controller number =>
    have hread : asByte (.int number : Json α) = .ok number := natural_int (Int.ofNat_le.mpr h) _
    refine asOneOf_first ?_
    show ControllerEntry.controller <$> asByte (.int number) = _
    rw [hread]
    rfl
  | table entries =>
    have hread : asTable asByte (.obj (entries.map fun e => (e.1, .int e.2)) : Json α) =
        .ok entries :=
      asTable_map (fun n : Nat => .int n) h.1 fun e he =>
        natural_int (Int.ofNat_le.mpr (h.2 e he)) _
    refine asOneOf_second rfl ?_
    show ControllerEntry.table <$> asTable asByte (.obj (entries.map fun e => (e.1, .int e.2))) = _
    rw [hread]
    rfl

theorem read_toJson {m : ControllerMap} (h : m.Tidy) :
    ControllerMap.read (m.toJson : Json α) = .ok m := by
  show ControllerMap.mk <$> asTable ControllerEntry.read
    (.obj (m.entries.map fun e => (e.1, e.2.toJson))) = _
  rw [asTable_map ControllerEntry.toJson h.ascending fun e he => entry_read_toJson (h.entries e he)]
  rfl

end Documents

end Partitura
