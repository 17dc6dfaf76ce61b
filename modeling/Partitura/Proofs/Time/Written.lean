import Partitura.Proofs.Number.Digits
import Partitura.Proofs.Text.Lines
import Partitura.Time.Amount

/-!
# Times that are written with plain numbers

Numbers with colons between them, and a number with an `n` behind it, are read as the amounts of
beats that these numbers stand for.
-/

namespace Partitura

open Number

variable {s : String} {cs : List Char} {x : Rat}

theorem visible_of_writesOut (h : WritesOut cs x) : ∀ c ∈ cs, Text.isBlank c = false := by
  intro c hc
  rcases digit_or_point_of_writesOut h c hc with hdigit | rfl
  · exact Text.isBlank_of_isDigit hdigit
  · rfl

theorem colon_notMem_of_writesOut (h : WritesOut cs x) : ':' ∉ cs := by
  intro hmem
  rcases digit_or_point_of_writesOut h _ hmem with hdigit | hpoint
  · exact absurd hdigit (by decide)
  · exact absurd hpoint (by decide)

theorem finite?_of_writesOut (h : WritesOut s.toList x) : Amount.finite? s = some x := by
  rw [Amount.finite?, scalar?_of_writesOut h]
  rfl

theorem field?_of_writesOut (h : WritesOut s.toList x) : Amount.field? s = some x := by
  have hne : ¬ s.isEmpty = true := by
    rw [String.isEmpty_iff]
    rintro rfl
    exact ne_nil_of_writesOut h rfl
  rw [Amount.field?, if_neg hne, finite?_of_writesOut h]

theorem amount?_of_visible (h : ∀ c ∈ s.toList, Text.isBlank c = false) (quarters : Rat) :
    (WrittenTime.text s).amount? quarters = Amount.ofText? quarters s := by
  rw [WrittenTime.amount?, Text.trim_of_visible h]

theorem amount?_fields {b q t : String} {bars beats ticks : Rat} (hb : WritesOut b.toList bars)
    (hq : WritesOut q.toList beats) (ht : WritesOut t.toList ticks) (quarters : Rat) :
    (WrittenTime.text (b ++ ":" ++ q ++ ":" ++ t)).amount? quarters =
      some (.beats (bars * quarters + beats + ticks / Scalar.ofInt Amount.ticksPerBeat)) := by
  have hlist : (b ++ ":" ++ q ++ ":" ++ t).toList =
      b.toList ++ ':' :: (q.toList ++ ':' :: t.toList) := by
    simp only [String.toList_append, List.append_assoc]
    rfl
  have hvisible : ∀ c ∈ (b ++ ":" ++ q ++ ":" ++ t).toList, Text.isBlank c = false := by
    rw [hlist]
    simp only [List.forall_mem_append, List.forall_mem_cons]
    exact ⟨visible_of_writesOut hb, rfl, visible_of_writesOut hq, rfl, visible_of_writesOut ht⟩
  have hcolon : (b ++ ":" ++ q ++ ":" ++ t).toList.contains ':' = true := by
    rw [hlist]
    simp
  have hcut : Text.cutAt ':' (b ++ ":" ++ q ++ ":" ++ t) = [b, q, t] := by
    have hjoin : b ++ ":" ++ q ++ ":" ++ t =
        b ++ String.ofList [':'] ++ (q ++ String.ofList [':'] ++ t) := by
      simp only [String.append_assoc]
    rw [hjoin, Text.cutAt_append _ (colon_notMem_of_writesOut hb),
      Text.cutAt_append _ (colon_notMem_of_writesOut hq),
      Text.cutAt_of_notMem (colon_notMem_of_writesOut ht)]
  rw [amount?_of_visible hvisible, Amount.ofText?, if_pos hcolon, hcut]
  simp only [List.map_cons, List.map_nil, Text.trim_of_visible (visible_of_writesOut hb),
    Text.trim_of_visible (visible_of_writesOut hq), Text.trim_of_visible (visible_of_writesOut ht),
    Amount.ofFields?, field?_of_writesOut hb, field?_of_writesOut hq, field?_of_writesOut ht]
  rfl

theorem decimal?_note (h : WritesOut cs x) : decimal? (cs ++ ['n']) = none := by
  cases h with
  | whole hds =>
    obtain ⟨htake, hdrop⟩ := takeWhile_append_stop ['n'] hds.2 (by simp)
    simp [decimal?, htake, hdrop, hds.1]
  | @point ds es hds hes =>
    obtain ⟨htake, hdrop⟩ := takeWhile_append_stop ('.' :: (es ++ ['n'])) hds.2 (by simp)
    obtain ⟨htake', hdrop'⟩ := takeWhile_append_stop ['n'] hes.2 (by simp)
    simp [decimal?, htake, hdrop, htake', hdrop', hds.1]

theorem scalar?_note (h : WritesOut s.toList x) : (scalar? (s ++ "n") : Option Rat) = none := by
  obtain ⟨ds, rest, hs, hds⟩ := exists_digits_of_writesOut h
  have hlist : (s ++ "n").toList = ds ++ (rest ++ ['n']) := by
    rw [String.toList_append, hs, List.append_assoc]
    rfl
  rw [scalar?_of_digits hlist hds, String.toList_append]
  exact congrArg _ (decimal?_note h)

theorem amount?_note (h : WritesOut s.toList x) (hx : 0 < x) (quarters : Rat) :
    (WrittenTime.text (s ++ "n")).amount? quarters = some (.beats (4 / x)) := by
  have hlist : (s ++ "n").toList = s.toList ++ ['n'] := String.toList_append
  have hvisible : ∀ c ∈ (s ++ "n").toList, Text.isBlank c = false := by
    rw [hlist]
    simp only [List.forall_mem_append, List.forall_mem_cons]
    exact ⟨visible_of_writesOut h, rfl, nofun⟩
  have hcolon : ¬ (s ++ "n").toList.contains ':' = true := by
    rw [hlist]
    simpa using colon_notMem_of_writesOut h
  rw [amount?_of_visible hvisible, Amount.ofText?, if_neg hcolon, scalar?_note h]
  have hdotted : (some 'n' == some '.') = false := rfl
  have hpos : ((0 : Int) : Rat) < x := by rwa [Int.cast_zero]
  simp only [Amount.ofNoteValue?, hlist, List.getLast?_concat, List.dropLast_concat, hdotted,
    Bool.false_eq_true, if_false, String.ofList_toList, finite?_of_writesOut h,
    Option.bind_eq_bind, Option.bind_some]
  refine (congrArg (Option.map Amount.beats) (if_pos hpos)).trans ?_
  show some (Amount.beats (((4 : Int) : Rat) / x)) = _
  rw [Int.cast_ofNat]

end Partitura
