import Partitura.Number.Decimal
import Partitura.Number.Numeral

/-!
# Dates and times of TOML

A moment is a date, a time of day, or both, and then maybe with its distance
from universal time. Fractions of a second are cut after nine places.
-/

namespace Partitura.Toml

structure Date where
  year : Nat
  month : Nat
  day : Nat
deriving DecidableEq, Repr

structure TimeOfDay where
  hour : Nat
  minute : Nat
  second : Nat
  nanosecond : Nat
deriving DecidableEq, Repr

inductive Offset where
  | universal
  | minutes (n : Int)
deriving DecidableEq, Repr

inductive Moment where
  | date (d : Date)
  | time (t : TimeOfDay)
  | both (d : Date) (t : TimeOfDay) (offset : Option Offset)
deriving DecidableEq, Repr

/-! ## Writing -/

def padded (width n : Nat) : String :=
  let digits := toString n
  Number.zeros (width - digits.length) ++ digits

def Date.text (d : Date) : String :=
  padded 4 d.year ++ "-" ++ padded 2 d.month ++ "-" ++ padded 2 d.day

def fractionOfSecond (nanosecond : Nat) : String :=
  if nanosecond = 0 then ""
  else
    let digits := (padded 9 nanosecond).toList.reverse.dropWhile (· == '0')
    "." ++ String.ofList digits.reverse

def TimeOfDay.text (t : TimeOfDay) : String :=
  padded 2 t.hour ++ ":" ++ padded 2 t.minute ++ ":" ++ padded 2 t.second
    ++ fractionOfSecond t.nanosecond

def Offset.text : Offset → String
  | universal => "Z"
  | minutes n =>
    (if n < 0 then "-" else "+") ++ padded 2 (n.natAbs / 60) ++ ":" ++ padded 2 (n.natAbs % 60)

def Moment.text : Moment → String
  | date d => d.text
  | time t => t.text
  | both d t offset => d.text ++ "T" ++ t.text ++ (offset.map Offset.text).getD ""

/-! ## Reading -/

def digits? (width lo hi : Nat) (cs : List Char) : Option (Nat × List Char) := do
  let n ← Number.natural? (cs.take width)
  if (cs.take width).length = width ∧ lo ≤ n ∧ n ≤ hi then some (n, cs.drop width) else none

def after? (c : Char) : List Char → Option (List Char)
  | d :: rest => if d = c then some rest else none
  | [] => none

def daysInMonth (year month : Nat) : Nat :=
  if month = 2 then
    if year % 4 = 0 ∧ (year % 100 ≠ 0 ∨ year % 400 = 0) then 29 else 28
  else if month ∈ [4, 6, 9, 11] then 30
  else 31

def date? (cs : List Char) : Option (Date × List Char) := do
  let (year, cs) ← digits? 4 0 9999 cs
  let (month, cs) ← digits? 2 1 12 (← after? '-' cs)
  let (day, cs) ← digits? 2 1 (daysInMonth year month) (← after? '-' cs)
  some (⟨year, month, day⟩, cs)

def nanoseconds (digits : List Char) : Nat :=
  let kept := digits.take 9
  Number.valueOfDigits 0 kept * Nat.pow 10 (9 - kept.length)

def fraction? : List Char → Option (Nat × List Char)
  | '.' :: rest =>
    let digits := rest.takeWhile Char.isDigit
    if digits.isEmpty then none else some (nanoseconds digits, rest.dropWhile Char.isDigit)
  | cs => some (0, cs)

/-- A time of day; a leap second counts as one. -/
def timeOfDay? (cs : List Char) : Option (TimeOfDay × List Char) := do
  let (hour, cs) ← digits? 2 0 23 cs
  let (minute, cs) ← digits? 2 0 59 (← after? ':' cs)
  let (second, cs) ← digits? 2 0 60 (← after? ':' cs)
  let (nanosecond, cs) ← fraction? cs
  some (⟨hour, minute, second, nanosecond⟩, cs)

def offset? : List Char → Option (Option Offset)
  | [] => some none
  | ['Z'] | ['z'] => some (some .universal)
  | c :: rest => do
    let sign : Int ← if c = '+' then some 1 else if c = '-' then some (-1) else none
    let (hours, rest) ← digits? 2 0 23 rest
    let (minutes, rest) ← digits? 2 0 59 (← after? ':' rest)
    if rest.isEmpty then some (some (.minutes (sign * ((hours * 60 + minutes : Nat) : Int))))
    else none

def dateWithTime? (d : Date) (cs : List Char) : Option Moment := do
  let (t, rest) ← timeOfDay? cs
  some (.both d t (← offset? rest))

def moment? (cs : List Char) : Option Moment :=
  match date? cs with
  | some (d, []) => some (.date d)
  | some (d, c :: rest) => if c = 'T' ∨ c = 't' then dateWithTime? d rest else none
  | none =>
    match timeOfDay? cs with
    | some (t, []) => some (.time t)
    | _ => none

end Partitura.Toml
