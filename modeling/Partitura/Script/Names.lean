import Partitura.Script.Literal

/-!
# Distinct names

Names are identifiers that are handed out once. A text whose identifier is taken
gets it with the least number after it, from two on, that makes it new. A name
asked for by a key is given to the same key again.
-/

namespace Partitura.Script

structure Names where
  taken : List String
  given : List (String × String)
deriving DecidableEq, Repr

namespace Names

def empty : Names := ⟨[], []⟩

/-- An identifier with a number after it; one stands for no number. -/
def numbered (base : String) (n : Nat) : String :=
  if n = 1 then base else base ++ "_" ++ toString n

/-- The first of at most `fuel + 1` numbers from one on that makes an identifier new. -/
def firstFree (taken : List String) (base : String) : Nat → Nat → String
  | 0, n => numbered base n
  | fuel + 1, n =>
    if numbered base n ∈ taken then firstFree taken base fuel (n + 1) else numbered base n

/-- A new name for a text. More numbers than names are never needed. -/
def fresh (names : Names) (raw : String) : String × Names :=
  let name := firstFree names.taken (identifier raw) names.taken.length 1
  (name, { names with taken := name :: names.taken })

def get (names : Names) (key : String) : String × Names :=
  match names.given.find? fun e => e.1 == key with
  | some e => (e.2, names)
  | none =>
    let (name, names) := names.fresh key
    (name, { names with given := (key, name) :: names.given })

def getAll (names : Names) : List String → List String × Names
  | [] => ([], names)
  | key :: rest =>
    let (name, names) := names.get key
    let (later, names) := names.getAll rest
    (name :: later, names)

def freshAll (names : Names) : List String → List String × Names
  | [] => ([], names)
  | raw :: rest =>
    let (name, names) := names.fresh raw
    let (later, names) := names.freshAll rest
    (name :: later, names)

end Names

end Partitura.Script
