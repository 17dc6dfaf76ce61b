import Partitura.Number.Scalar

/-!
# JSON values

Objects keep the order of their keys. A number is an integer or a number of the
type that times and levels are measured in; the two kinds stay apart.
-/

namespace Partitura

inductive Json (α : Type) where
  | null
  | bool (b : Bool)
  | int (n : Int)
  | real (x : α)
  | str (s : String)
  | arr (items : List (Json α))
  | obj (fields : List (String × Json α))

namespace Json

variable {α : Type}

instance : Inhabited (Json α) := ⟨.null⟩

mutual

/-- Equality with the number type's own test on numbers. -/
def same [BEq α] : Json α → Json α → Bool
  | .null, .null => true
  | .bool a, .bool b => a == b
  | .int a, .int b => a == b
  | .real a, .real b => a == b
  | .str a, .str b => a == b
  | .arr a, .arr b => sameItems a b
  | .obj a, .obj b => sameFields a b
  | _, _ => false

def sameItems [BEq α] : List (Json α) → List (Json α) → Bool
  | [], [] => true
  | a :: as, b :: bs => same a b && sameItems as bs
  | _, _ => false

def sameFields [BEq α] : List (String × Json α) → List (String × Json α) → Bool
  | [], [] => true
  | (k, a) :: as, (l, b) :: bs => k == l && same a b && sameFields as bs
  | _, _ => false

end

instance [BEq α] : BEq (Json α) := ⟨same⟩

def lookup (key : String) : List (String × Json α) → Option (Json α)
  | [] => none
  | (k, v) :: rest => if k = key then some v else lookup key rest

/-- The fields with a value put at a key: in place if the key is there, else at the end. -/
def put (key : String) (value : Json α) : List (String × Json α) → List (String × Json α)
  | [] => [(key, value)]
  | (k, v) :: rest => if k = key then (k, value) :: rest else (k, v) :: put key value rest

def get? (key : String) : Json α → Option (Json α)
  | .obj fields => lookup key fields
  | _ => none

def array? : Json α → Option (List (Json α))
  | .arr items => some items
  | _ => none

def object? : Json α → Option (List (String × Json α))
  | .obj fields => some fields
  | _ => none

def string? : Json α → Option String
  | .str s => some s
  | _ => none

def isNull : Json α → Bool
  | .null => true
  | _ => false

def scalar? [Scalar α] : Json α → Option α
  | .int n => some (Scalar.ofInt n)
  | .real x => some x
  | _ => none

def isInt64 (n : Int) : Bool := decide (-9223372036854775808 ≤ n ∧ n ≤ 9223372036854775807)

def int64? : Json α → Option Int
  | .int n => if isInt64 n then some n else none
  | _ => none

/-- A number as a value; what has no finite value is null. -/
def ofScalar [Scalar α] (x : α) : Json α := if Scalar.isFinite x then .real x else .null

end Json

end Partitura
