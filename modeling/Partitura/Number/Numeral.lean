import Partitura.Number.Scalar

/-!
# Reading numbers from text

A number is a sign, digits with an optional point among or around them, and an
optional exponent; or one of the names `inf`, `infinity` and `nan` in any case
of letters. An integer is a sign and digits. Neither takes blanks, separators or
other bases.
-/

namespace Partitura.Number

def valueOfDigits (start : Nat) (cs : List Char) : Nat :=
  cs.foldl (fun n c => n * 10 + (c.toNat - '0'.toNat)) start

def hexValue? (c : Char) : Option Nat :=
  if c.isDigit then some (c.toNat - 48)
  else if 'a' ≤ c ∧ c ≤ 'f' then some (c.toNat - 87)
  else if 'A' ≤ c ∧ c ≤ 'F' then some (c.toNat - 55)
  else none

def valueInBase? (base : Nat) (cs : List Char) : Option Nat :=
  cs.foldlM (fun n c => do
    let d ← hexValue? c
    if d < base then some (n * base + d) else none) 0

def splitSign : List Char → Bool × List Char
  | '+' :: r => (false, r)
  | '-' :: r => (true, r)
  | r => (false, r)

def natural? (cs : List Char) : Option Nat :=
  if cs.isEmpty || !cs.all Char.isDigit then none else some (valueOfDigits 0 cs)

/-- An integer within two bounds. A minus sign stands only where the lower bound is below zero. -/
def integerWithin? (lo hi : Int) (text : String) : Option Int := do
  let (negative, digits) := splitSign text.toList
  if negative && decide (0 ≤ lo) then none
  else
    let n ← natural? digits
    let value : Int := if negative then -(n : Int) else n
    if lo ≤ value ∧ value ≤ hi then some value else none

def byte? (text : String) : Option Nat := (integerWithin? 0 255 text).map Int.toNat

def int32? : String → Option Int := integerWithin? (-2147483648) 2147483647
def int64? : String → Option Int := integerWithin? (-9223372036854775808) 9223372036854775807

def nat16? (text : String) : Option Nat := (integerWithin? 0 65535 text).map Int.toNat
def nat64? (text : String) : Option Nat :=
  (integerWithin? 0 18446744073709551615 text).map Int.toNat

def decimal? (cs : List Char) : Option (Nat × Int) := do
  let whole := cs.takeWhile Char.isDigit
  let afterWhole := cs.dropWhile Char.isDigit
  let (fraction, rest) := match afterWhole with
    | '.' :: r => (r.takeWhile Char.isDigit, r.dropWhile Char.isDigit)
    | r => ([], r)
  if whole.isEmpty && fraction.isEmpty then none
  else
    let digits := valueOfDigits (valueOfDigits 0 whole) fraction
    let scale : Int := -(fraction.length : Int)
    match rest with
    | [] => some (digits, scale)
    | e :: r =>
      if e = 'e' ∨ e = 'E' then
        let (negative, power) := splitSign r
        let n ← natural? power
        some (digits, scale + (if negative then -(n : Int) else n))
      else none

def scalar? {α : Type} [Scalar α] (text : String) : Option α :=
  let (negative, rest) := splitSign text.toList
  let name := rest.map Char.toLower
  if name = "inf".toList ∨ name = "infinity".toList then Scalar.infinity? negative
  else if name = "nan".toList then Scalar.undefined?
  else
    (decimal? rest).map fun (digits, exponent) =>
      let size : α := Scalar.ofDecimal digits exponent
      if negative then -size else size

end Partitura.Number
