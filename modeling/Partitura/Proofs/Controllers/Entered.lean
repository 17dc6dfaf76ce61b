import Partitura.Proofs.Controllers
import Partitura.Proofs.Toml.Overlay

/-!
# Controllers that tables set

Under the heading of the controllers the tables of files set controllers, for every kind of device
or within a table for one kind. When tables are laid over one another, each controller comes from
the last table that sets it or stands in its way.
-/

namespace Partitura

open Json (asTable asByte)
open Toml (Ordered inForce? merged)

variable {α β : Type}

/-! ## Values that are read -/

section Reading

variable [Scalar α]

theorem asByte_toJson {v : Toml α} {n : Nat} (h : asByte v.toJson = .ok n) : v = .integer n := by
  obtain ⟨m, hm, rfl⟩ := Json.map_ok h
  cases v with
  | integer k =>
    rw [Toml.toJson, Json.asInteger] at hm
    split at hm
    · next hk =>
      cases hm
      rw [Int.toNat_of_nonneg hk.1]
    · cases hm
  | _ => cases hm

theorem asTable_toJson {read : Json α → Except DecodeError β} {v : Toml α} (hv : Ordered v)
    {entries : Sorted β} (h : asTable read v.toJson = .ok entries) :
    ∃ fields, v = .table fields ∧
      (∀ key w, Sorted.get? key fields = some w → ∃ b, read w.toJson = .ok b) ∧
      ∀ key b, Sorted.get? key entries = some b ↔
        ∃ w, Sorted.get? key fields = some w ∧ read w.toJson = .ok b := by
  cases v with
  | table fields =>
    rw [Toml.toJson] at h
    have hdistinct := Toml.distinct_entriesToJson hv.ascending
    refine ⟨fields, rfl, fun key w hw => ?_, fun key b => ?_⟩
    · have hfield : Sorted.get? key (Toml.entriesToJson fields) = some w.toJson := by
        rw [Toml.get?_entriesToJson, hw, Option.map_some]
      exact Json.asTable_reads hdistinct h hfield
    · rw [Json.asTable_get?_iff hdistinct h, Toml.get?_entriesToJson]
      simp only [Option.map_eq_some_iff, exists_exists_and_eq_and]
  | _ => cases h

inductive ControllerEntry.Matches : ControllerEntry → Toml α → Prop where
  | controller (n : Nat) : Matches (.controller n) (.integer n)
  | table {fields : Sorted (Toml α)} {entries : Sorted Nat}
      (h : ∀ name (n : Nat), Sorted.get? name entries = some n ↔
        Sorted.get? name fields = some (.integer n)) : Matches (.table entries) (.table fields)

theorem ControllerEntry.matches_of_read {v : Toml α} (hv : Ordered v) {e : ControllerEntry}
    (h : ControllerEntry.read v.toJson = .ok e) : e.Matches v := by
  rcases Json.asOneOf_ok h with h | h
  · obtain ⟨n, hn, rfl⟩ := Json.map_ok h
    rw [asByte_toJson hn]
    exact .controller n
  · obtain ⟨entries, hentries, rfl⟩ := Json.map_ok h
    obtain ⟨fields, rfl, hreads, hiff⟩ := asTable_toJson hv hentries
    refine .table fun name n => (hiff name n).trans ⟨?_, fun hw => ?_⟩
    · rintro ⟨w, hw, hread⟩
      rw [hw, asByte_toJson hread]
    · obtain ⟨m, hm⟩ := hreads name _ hw
      have hmn := asByte_toJson hm
      injection hmn with hmn
      exact ⟨_, hw, Int.ofNat_inj.mp hmn ▸ hm⟩

end Reading

namespace ControllerMap

/-! ## Controllers of merged tables -/

/-- The controllers of a map are those that some tables set. -/
structure Entered (tables : List (Sorted (Toml α))) (m : ControllerMap) : Prop where
  shared : ∀ key (n : Nat), Sorted.get? key m.entries = some (.controller n) ↔
    inForce? ["controllers", key] tables = some (.integer n)
  kind : ∀ key, (∃ entries, Sorted.get? key m.entries = some (.table entries)) ↔
    ∃ entries, inForce? ["controllers", key] tables = some (.table entries)
  own : ∀ key name (n : Nat), (∃ entries, Sorted.get? key m.entries = some (.table entries) ∧
      Sorted.get? name entries = some n) ↔
    inForce? ["controllers", key, name] tables = some (.integer n)

/-- The controllers of a map are those of a value. -/
structure Holds (v : Option (Toml α)) (m : ControllerMap) : Prop where
  shared : ∀ key (n : Nat), Sorted.get? key m.entries = some (.controller n) ↔
    v.bind (Toml.at? [key]) = some (.integer n)
  kind : ∀ key, (∃ entries, Sorted.get? key m.entries = some (.table entries)) ↔
    ∃ entries, v.bind (Toml.at? [key]) = some (.table entries)
  own : ∀ key name (n : Nat), (∃ entries, Sorted.get? key m.entries = some (.table entries) ∧
      Sorted.get? name entries = some n) ↔
    v.bind (Toml.at? [key, name]) = some (.integer n)

theorem holds_none : Holds (none : Option (Toml α)) empty := by
  have hnothing (key : String) : Sorted.get? key empty.entries = none := rfl
  constructor <;> simp [hnothing]

theorem holds_read [Scalar α] {v : Toml α} (hv : Ordered v) {m : ControllerMap}
    (h : ControllerMap.read v.toJson = .ok m) : Holds (some v) m := by
  obtain ⟨entries, hentries, rfl⟩ := Json.map_ok h
  obtain ⟨fields, rfl, hreads, hiff⟩ := asTable_toJson hv hentries
  have hread {key : String} {w : Toml α} {e : ControllerEntry}
      (hw : Sorted.get? key fields = some w) (he : ControllerEntry.read w.toJson = .ok e) :
      e.Matches w := ControllerEntry.matches_of_read (hv.get? hw) he
  have hentry {key : String} {e : ControllerEntry} (he : Sorted.get? key entries = some e) :
      ∃ w, Sorted.get? key fields = some w ∧ e.Matches w := by
    obtain ⟨w, hw, he⟩ := (hiff key e).mp he
    exact ⟨w, hw, hread hw he⟩
  have hfield {key : String} {w : Toml α} (hw : Sorted.get? key fields = some w) :
      ∃ e, Sorted.get? key entries = some e ∧ e.Matches w := by
    obtain ⟨e, he⟩ := hreads key w hw
    exact ⟨e, (hiff key e).mpr ⟨w, hw, he⟩, hread hw he⟩
  have hat (key name : String) : (Toml.table fields).at? [key, name] =
      (Sorted.get? key fields).bind (Toml.at? [name]) := by rw [Toml.at?]
  refine ⟨fun key n => ?_, fun key => ?_, fun key name n => ?_⟩
  all_goals rw [Option.bind_some]
  · rw [Toml.at?_singleton]
    constructor
    · intro he
      obtain ⟨w, hw, ⟨⟩⟩ := hentry he
      exact hw
    · intro hw
      obtain ⟨e, he, hmatches⟩ := hfield hw
      generalize hi : (n : Int) = i at hmatches
      cases hmatches with
      | controller m => exact Int.ofNat_inj.mp hi ▸ he
  · rw [Toml.at?_singleton]
    constructor
    · rintro ⟨own, he⟩
      obtain ⟨w, hw, hmatches⟩ := hentry he
      cases hmatches with
      | table _ => exact ⟨_, hw⟩
    · rintro ⟨own, hw⟩
      obtain ⟨e, he, hmatches⟩ := hfield hw
      cases hmatches with
      | table _ => exact ⟨_, he⟩
  · rw [hat]
    constructor
    · rintro ⟨own, he, hn⟩
      obtain ⟨w, hw, hmatches⟩ := hentry he
      cases hmatches with
      | table hown => rw [hw, Option.bind_some, Toml.at?_singleton, (hown name n).mp hn]
    · intro hn
      obtain ⟨w, hw, hn⟩ := Option.bind_eq_some_iff.mp hn
      obtain ⟨e, he, hmatches⟩ := hfield hw
      cases hmatches with
      | controller m => cases hn
      | table hown =>
        rw [Toml.at?_singleton] at hn
        exact ⟨_, he, (hown name n).mpr hn⟩

theorem entered_of_holds {tables : List (Sorted (Toml α))} (h : ∀ t ∈ tables, Ordered (.table t))
    {m : ControllerMap}
    (hm : Holds ((Toml.table (merged tables)).at? ["controllers"]) m) : Entered tables m := by
  have hat (key : String) (path : List String) :=
    Toml.at?_table_cons (merged tables) "controllers" (key :: path)
  have hsame (key : String) (path : List String) :=
    Toml.at?_merged h "controllers" (key :: path)
  simp only [hat] at hsame
  exact ⟨fun key n => (hm.shared key n).trans ((hsame key []).plain_iff rfl),
    fun key => (hm.kind key).trans (hsame key []).table_iff,
    fun key name n => (hm.own key name n).trans ((hsame key [name]).plain_iff rfl)⟩

end ControllerMap

end Partitura
