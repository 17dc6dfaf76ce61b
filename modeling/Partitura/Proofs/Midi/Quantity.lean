import Mathlib.Algebra.Group.Nat.Defs
import Mathlib.Data.Nat.Digits.Lemmas
import Partitura.Proofs.Midi.Reader

/-!
# Quantities

A quantity is the digits of a number to the base of 128, the highest first, and has a top bit on
every byte but the last. So a reader knows where it ends, whatever follows it, and no quantity
begins with another one.

A word of 32 bits can also be written in two passes. The first puts its groups of seven bits into
slots, the lowest group first. The second sends them from the last one down, with a top bit on each
but the lowest. Five slots are enough, and what is sent is the quantity of the word.
-/

namespace Partitura.Midi

/-! ## Bytes -/

theorem toNat_group (n : Nat) : (UInt8.ofNat (n % 128)).toNat = n % 128 := by
  rw [UInt8.toNat_ofNat']
  omega

theorem group_lt (n : Nat) : UInt8.ofNat (n % 128) < 0x80 := by
  rw [UInt8.lt_iff_toNat_lt, toNat_group]
  exact Nat.mod_lt n (by decide)

theorem toNat_leadingGroup (n : Nat) : (UInt8.ofNat (n % 128 + 128)).toNat = n % 128 + 128 := by
  rw [UInt8.toNat_ofNat']
  omega

theorem leadingGroups_zero : leadingGroups 0 = [] := by rw [leadingGroups, dif_pos rfl]

theorem le_of_mem_leadingGroups {n : Nat} {b : UInt8} (h : b ∈ leadingGroups n) : 0x80 ≤ b := by
  fun_induction leadingGroups n with
  | case1 => cases h
  | case2 n hn ih =>
    rcases List.mem_append.mp h with h | h
    · exact ih h
    · rw [List.mem_singleton.mp h, UInt8.le_iff_toNat_le, toNat_leadingGroup]
      exact Nat.le_add_left 128 _

theorem head?_groups {n : Nat} {last : UInt8} (hlast : n / 128 = 0 → last.toNat ≠ 128) :
    (leadingGroups (n / 128) ++ [last]).head? ≠ some 0x80 := by
  induction n using Nat.strongRecOn generalizing last with
  | ind n ih =>
    rw [leadingGroups]
    split
    · next hhigh =>
      rw [List.nil_append, List.head?_cons, Ne, Option.some.injEq, ← UInt8.toNat_inj]
      exact hlast hhigh
    · next hhigh =>
      rw [List.head?_append_of_ne_nil _ (by simp)]
      refine ih (n / 128) (by omega) fun hzero => ?_
      rw [toNat_leadingGroup]
      omega

theorem head?_quantity (n : Nat) : (quantity n).head? ≠ some 0x80 := by
  refine head?_groups fun _ => ?_
  rw [toNat_group]
  omega

/-! ## Lengths -/

theorem length_leadingGroups (n : Nat) : (leadingGroups n).length = (Nat.digits 128 n).length := by
  fun_induction leadingGroups n with
  | case1 => rfl
  | case2 n hn ih =>
    rw [Nat.digits_def' (by decide) (Nat.pos_of_ne_zero hn), List.length_append, ih]
    rfl

theorem length_leadingGroups_le_iff {width n : Nat} :
    (leadingGroups n).length ≤ width ↔ n < 128 ^ width := by
  rw [length_leadingGroups, Nat.digits_length_le_iff (by decide)]

theorem length_quantity_le_iff {width n : Nat} :
    (quantity n).length ≤ width + 1 ↔ n < 128 ^ (width + 1) := by
  rw [quantity, List.length_append, List.length_singleton, Nat.add_le_add_iff_right,
    length_leadingGroups_le_iff, Nat.div_lt_iff_lt_mul (by decide), ← Nat.pow_succ]

/-! ## Reading -/

theorem readQuantity_leadingGroups (width n : Nat) (bs : Bytes) :
    readQuantity (width + (leadingGroups n).length) 0 (leadingGroups n ++ bs) =
      readQuantity width n bs := by
  fun_induction leadingGroups n generalizing width bs with
  | case1 => rfl
  | case2 n hn ih =>
    have hrest := ih (width + 1) (UInt8.ofNat (n % 128 + 128) :: bs)
    rw [List.length_append, List.length_singleton, List.append_assoc, List.singleton_append,
      show width + ((leadingGroups (n / 128)).length + 1) =
        width + 1 + (leadingGroups (n / 128)).length by omega, hrest]
    have hvalue : n / 128 * 128 + (n % 128 + 128 - 128) = n := by omega
    rw [readQuantity, toNat_leadingGroup, if_neg (by omega), hvalue]

theorem readQuantity_quantity {width n : Nat} (h : n < 128 ^ (width + 1)) (bs : Bytes) :
    readQuantity (width + 1) 0 (quantity n ++ bs) = some (n, bs) := by
  have hlength := length_quantity_le_iff.mpr h
  rw [quantity, List.length_append, List.length_singleton] at hlength
  rw [quantity, List.append_assoc, List.singleton_append]
  rw [show width + 1 = width - (leadingGroups (n / 128)).length + 1 +
    (leadingGroups (n / 128)).length by omega, readQuantity_leadingGroups]
  have hvalue : n / 128 * 128 + n % 128 = n := by omega
  rw [readQuantity, toNat_group, if_pos (by omega), hvalue]

/-- A reader that allows enough bytes finds each of two numbers in front of what follows it. -/
theorem prefix_quantity_iff (m n : Nat) : quantity m <+: quantity n ↔ m = n := by
  constructor
  · rintro ⟨rest, hrest⟩
    have hlt (k : Nat) (hk : k ≤ m + n) : k < 128 ^ (m + n + 1) :=
      Nat.lt_pow_self (by decide) |>.trans_le (Nat.pow_le_pow_right (by decide) (by omega))
    have hm := readQuantity_quantity (hlt m (by omega)) rest
    have hn := readQuantity_quantity (hlt n (by omega)) []
    rw [List.append_nil, ← hrest, hm] at hn
    exact (Prod.mk.inj (Option.some.inj hn)).1
  · rintro rfl
    exact List.prefix_rfl

/-! ## Groups -/

def lowGroup (word : UInt32) : UInt8 := (word &&& 0x7F).toUInt8

theorem lowGroup_eq (word : UInt32) : lowGroup word = UInt8.ofNat (word.toNat % 128) := by
  have hlow : word.toNat &&& 127 = word.toNat % 128 := Nat.and_two_pow_sub_one_eq_mod _ 7
  rw [lowGroup, ← UInt8.toNat_inj, UInt32.toNat_toUInt8, UInt32.toNat_and, UInt8.toNat_ofNat']
  exact congrArg (· % 256) hlow

theorem lowGroup_or_top (word : UInt32) :
    lowGroup word ||| 0x80 = UInt8.ofNat (word.toNat % 128 + 128) := by
  have hall : ∀ g : Fin 128, UInt8.ofNat g ||| 0x80 = UInt8.ofNat (g + 128) := by decide +kernel
  rw [lowGroup_eq]
  exact hall ⟨word.toNat % 128, Nat.mod_lt _ (by decide)⟩

theorem toNat_shiftRight_seven (word : UInt32) : (word >>> 7).toNat = word.toNat / 128 := by
  rw [UInt32.toNat_shiftRight]
  exact Nat.shiftRight_eq_div_pow _ 7

/-! ## Slots -/

/-- Puts the groups of a word into slots from `k` on and counts the slots in use. There is no sixth
slot to put one into. -/
def fillSlots (slots : Vector UInt8 5) (k : Nat) (rest : UInt32) : Option (Vector UInt8 5 × Nat) :=
  if _h : k < 5 then
    let filled := slots.set k (lowGroup rest)
    if rest >>> 7 = 0 then some (filled, k + 1) else fillSlots filled (k + 1) (rest >>> 7)
  else none
termination_by 5 - k

def sendSlots (slots : Vector UInt8 5) : (count : Nat) → Bytes → Option Bytes
  | 0, sent => some sent
  | k + 1, sent => do
    let group ← slots[k]?
    sendSlots slots k (sent ++ [group ||| if 0 < k then 0x80 else 0])

def sendWord? (sent : Bytes) (word : UInt32) : Option Bytes := do
  let (slots, count) ← fillSlots (Vector.replicate 5 0) 0 word
  sendSlots slots count sent

theorem sendSlots_succ {slots : Vector UInt8 5} {k : Nat} {word : UInt32}
    (hslot : slots[k]? = some (lowGroup word)) (hk : 0 < k) (sent : Bytes) :
    sendSlots slots (k + 1) sent =
      sendSlots slots k (sent ++ [UInt8.ofNat (word.toNat % 128 + 128)]) := by
  rw [sendSlots, hslot, Option.bind_eq_bind, Option.bind_some, if_pos hk, lowGroup_or_top]

theorem exists_filled {k : Nat} (hk : k < 5) (slots : Vector UInt8 5) (rest : UInt32) :
    ∃ filled : Vector UInt8 5, filled[k]? = some (lowGroup rest) ∧
      (∀ i < k, filled[i]? = slots[i]?) ∧
      fillSlots slots k rest = if rest >>> 7 = 0 then some (filled, k + 1)
        else fillSlots filled (k + 1) (rest >>> 7) := by
  refine ⟨slots.set k (lowGroup rest), Vector.getElem?_set_self hk,
    fun i hi => Vector.getElem?_set_ne hk hi.ne', ?_⟩
  rw [fillSlots, dif_pos hk]

theorem exists_fillSlots (free : Nat) (slots : Vector UInt8 5) {k : Nat} {rest : UInt32}
    (hk : 0 < k) (hfree : k + free = 5) (hrest : rest.toNat ≠ 0)
    (hsmall : rest.toNat < 128 ^ free) :
    ∃ filled count, fillSlots slots k rest = some (filled, count) ∧
      (∀ i < k, filled[i]? = slots[i]?) ∧
      ∀ sent, sendSlots filled count sent =
        sendSlots filled k (sent ++ leadingGroups rest.toNat) := by
  induction free generalizing slots k rest with
  | zero =>
    rw [Nat.pow_zero] at hsmall
    omega
  | succ free ih =>
    have hgroups : leadingGroups rest.toNat =
        leadingGroups (rest >>> 7).toNat ++ [UInt8.ofNat (rest.toNat % 128 + 128)] := by
      rw [leadingGroups, dif_neg hrest, toNat_shiftRight_seven]
    obtain ⟨filled, hslot, hbelow, hfill⟩ := exists_filled (show k < 5 by omega) slots rest
    rw [hfill]
    split
    · next hdone =>
      refine ⟨filled, k + 1, rfl, hbelow, fun sent => ?_⟩
      rw [sendSlots_succ hslot hk, hgroups, hdone, UInt32.toNat_zero, leadingGroups_zero,
        List.nil_append]
    · next hmore =>
      have hnext : (rest >>> 7).toNat ≠ 0 := fun hzero => hmore (UInt32.toNat_inj.mp hzero)
      have hless : (rest >>> 7).toNat < 128 ^ free := by
        rw [toNat_shiftRight_seven, Nat.div_lt_iff_lt_mul (by decide), ← Nat.pow_succ]
        exact hsmall
      obtain ⟨all, count, hrun, hkept, hsend⟩ := ih _ k.succ_pos (by omega) hnext hless
      have hlast : all[k]? = some (lowGroup rest) := by rw [hkept k k.lt_succ_self, hslot]
      refine ⟨all, count, hrun, fun i hi => ?_, fun sent => ?_⟩
      · rw [hkept i (Nat.lt_succ_of_lt hi), hbelow i hi]
      · rw [hsend, sendSlots_succ hlast hk, hgroups, List.append_assoc]

theorem sendSlots_one {slots : Vector UInt8 5} {word : UInt32}
    (hslot : slots[0]? = some (lowGroup word)) (sent : Bytes) :
    sendSlots slots 1 sent = some (sent ++ [UInt8.ofNat (word.toNat % 128)]) := by
  rw [sendSlots, hslot, Option.bind_eq_bind, Option.bind_some, if_neg (Nat.lt_irrefl 0),
    UInt8.or_zero, lowGroup_eq, sendSlots]

/-- A word is sent as its quantity, and five slots are enough for it. -/
theorem sendWord?_eq (sent : Bytes) (word : UInt32) :
    sendWord? sent word = some (sent ++ quantity word.toNat) := by
  obtain ⟨filled, hslot, -, hfill⟩ := exists_filled (show 0 < 5 by decide) (.replicate 5 0) word
  rw [sendWord?, hfill, quantity, ← toNat_shiftRight_seven]
  split
  · next hdone =>
    rw [hdone, UInt32.toNat_zero, leadingGroups_zero, List.nil_append]
    exact sendSlots_one hslot sent
  · next hmore =>
    have hnext : (word >>> 7).toNat ≠ 0 := fun hzero => hmore (UInt32.toNat_inj.mp hzero)
    have hless : (word >>> 7).toNat < 128 ^ 4 := by
      have hword := word.toNat_lt
      rw [toNat_shiftRight_seven]
      omega
    obtain ⟨all, count, hrun, hkept, hsend⟩ :=
      exists_fillSlots 4 filled Nat.one_pos rfl hnext hless
    have hlast : all[0]? = some (lowGroup word) := by rw [hkept 0 Nat.one_pos, hslot]
    rw [Nat.zero_add, hrun, Option.bind_eq_bind, Option.bind_some]
    dsimp only
    rw [hsend, sendSlots_one hlast, List.append_assoc]

/-! ## Words -/

/-- How a word is written: in at most five bytes, of which the last one alone has no top bit, with
no group of zeros in front. Whatever has been sent before, slots make the same of it; and whatever
follows, a reader takes so many bytes and no more, if it allows five or more. -/
structure WritesWord (word : UInt32) (bytes : Bytes) : Prop where
  sent : ∀ before, sendWord? before word = some (before ++ bytes)
  length : bytes.length ≤ 5
  tops : ∃ leading last, bytes = leading ++ [last] ∧ (∀ b ∈ leading, 0x80 ≤ b) ∧ last < 0x80
  shortest : bytes.head? ≠ some 0x80
  readBack : ∀ more rest, readQuantity (5 + more) 0 (bytes ++ rest) = some (word.toNat, rest)

/-- Every word is written in its own way, and in a way that ends by itself. -/
theorem writesWord_quantity (word : UInt32) :
    WritesWord word (quantity word.toNat) ∧
      ∀ other : UInt32,
        (quantity word.toNat = quantity other.toNat ↔ word = other) ∧
        (quantity word.toNat <+: quantity other.toNat ↔ word = other) := by
  have hfive : word.toNat < 128 ^ 5 := word.toNat_lt.trans (by decide)
  refine ⟨⟨fun before => sendWord?_eq before word, length_quantity_le_iff.mpr hfive,
    ⟨_, _, rfl, fun b => le_of_mem_leadingGroups, group_lt _⟩, head?_quantity _,
    fun more rest => ?_⟩, fun other => ?_⟩
  · have hmore : word.toNat < 128 ^ (4 + more + 1) :=
      hfive.trans_le (Nat.pow_le_pow_right (by decide) (by omega))
    rw [show 5 + more = 4 + more + 1 by omega]
    exact readQuantity_quantity hmore rest
  · rw [prefix_quantity_iff, UInt32.toNat_inj]
    refine ⟨⟨fun heq => ?_, fun heq => heq ▸ rfl⟩, Iff.rfl⟩
    exact UInt32.toNat_inj.mp ((prefix_quantity_iff _ _).mp (heq ▸ List.prefix_rfl))

example : quantity 4294967295 = [0x8F, 0xFF, 0xFF, 0xFF, 0x7F] := by decide +kernel

end Partitura.Midi
