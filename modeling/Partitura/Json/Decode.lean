import Partitura.Json.Basic
import Partitura.Text.Quoted
import Partitura.Controllers

/-!
# Reading records out of JSON values

A record is read from an object, whose keys are taken in their order and unknown
ones skipped, or from a list with its fields in their declared order. The first
field that cannot be read is reported; a field that is missing is reported only
after all that are there. A value that may have several forms fits none of them
or takes the first that it fits.
-/

namespace Partitura

inductive Found where
  | null
  | bool (b : Bool)
  | integer (n : Int)
  | real (shown : String)
  | text (s : String)
  | sequence
  | map
deriving DecidableEq, Repr

def Found.display : Found → String
  | .null => "null"
  | .bool b => "boolean `" ++ (if b then "true" else "false") ++ "`"
  | .integer n => "integer `" ++ toString n ++ "`"
  | .real shown => "floating point `" ++ shown ++ "`"
  | .text s => "string " ++ Text.quote s
  | .sequence => "sequence"
  | .map => "map"

inductive DecodeError where
  | invalidType (found : Found) (expected : String)
  | invalidValue (found : Found) (expected : String)
  | missingField (name : String)
  | tooShort (length : Nat) (record : String) (fields : Nat)
  | tooLong (length : Nat)
  | unknownVariant (name : String) (known : List String)
  | noVariant (type : String)
deriving DecidableEq, Repr

def DecodeError.message : DecodeError → String
  | .invalidType found expected => "invalid type: " ++ found.display ++ ", expected " ++ expected
  | .invalidValue found expected =>
    "invalid value: " ++ found.display ++ ", expected " ++ expected
  | .missingField name => "missing field `" ++ name ++ "`"
  | .tooShort length record fields =>
    "invalid length " ++ toString length ++ ", expected struct " ++ record ++ " with "
      ++ toString fields ++ (if fields = 1 then " element" else " elements")
  | .tooLong length =>
    "invalid length " ++ toString length ++ ", expected fewer elements in array"
  | .unknownVariant name known =>
    "unknown variant `" ++ name ++ "`, expected one of "
      ++ ", ".intercalate (known.map fun k => "`" ++ k ++ "`")
  | .noVariant type => "data did not match any variant of untagged enum " ++ type

namespace Json

variable {α : Type} [Scalar α] {β ρ : Type}

def found : Json α → Found
  | .null => .null
  | .bool b => .bool b
  | .int n => .integer n
  | .real x => .real (Scalar.documentText x)
  | .str s => .text s
  | .arr _ => .sequence
  | .obj _ => .map

def mismatch (expected : String) (j : Json α) : Except DecodeError β :=
  .error (.invalidType j.found expected)

def asString : Json α → Except DecodeError String
  | .str s => .ok s
  | j => j.mismatch "a string"

def asScalar : Json α → Except DecodeError α
  | .int n => .ok (Scalar.ofInt n)
  | .real x => .ok x
  | j => j.mismatch "f64"

/-- An integer within bounds; `kind` names its type. -/
def asInteger (lo hi : Int) (kind : String) : Json α → Except DecodeError Int
  | .int n => if lo ≤ n ∧ n ≤ hi then .ok n else .error (.invalidValue (.integer n) kind)
  | j => j.mismatch kind

def asInt64 : Json α → Except DecodeError Int :=
  asInteger (-9223372036854775808) 9223372036854775807 "i64"

def asByte (j : Json α) : Except DecodeError Nat := Int.toNat <$> j.asInteger 0 255 "u8"

def asNat16 (j : Json α) : Except DecodeError Nat := Int.toNat <$> j.asInteger 0 65535 "u16"

def asNat32 (j : Json α) : Except DecodeError Nat := Int.toNat <$> j.asInteger 0 4294967295 "u32"

def asNat64 (j : Json α) : Except DecodeError Nat :=
  Int.toNat <$> j.asInteger 0 18446744073709551615 "usize"

def asOption (read : Json α → Except DecodeError β) : Json α → Except DecodeError (Option β)
  | .null => .ok none
  | j => some <$> read j

def asList (read : Json α → Except DecodeError β) : Json α → Except DecodeError (List β)
  | .arr items => items.mapM read
  | j => j.mismatch "a sequence"

/-- An object as a table in ascending order of its keys. -/
def asTable (read : Json α → Except DecodeError β) : Json α → Except DecodeError (Sorted β)
  | .obj fields => do
    .ok (Sorted.ofList (← fields.mapM fun f => do .ok (f.1, ← read f.2)))
  | j => j.mismatch "a map"

def asOneOf (type : String) (readings : List (Json α → Except DecodeError β)) (j : Json α) :
    Except DecodeError β :=
  match readings.findSome? fun read => (read j).toOption with
  | some v => .ok v
  | none => .error (.noVariant type)

def need (name : String) : Option β → Except String β
  | some v => .ok v
  | none => .error name

/-- A record with the fields `names`, of which a list has to hold those in `due`. `put`
reads one field into a draft, and `finish` turns the draft into the record or names the
first field that is missing. -/
def asRecord (type : String) (names due : List String) (draft : ρ)
    (put : ρ → String → Json α → Except DecodeError ρ) (finish : ρ → Except String β) :
    Json α → Except DecodeError β
  | .obj fields => do
    let draft ← fields.foldlM (fun r f => put r f.1 f.2) draft
    (finish draft).mapError .missingField
  | .arr items => do
    let short := fun name => DecodeError.tooShort (names.idxOf name) type names.length
    let draft ← (names.zip items).foldlM (fun r f => put r f.1 f.2) draft
    match (names.drop items.length).find? fun name => due.contains name with
    | some name => .error (short name)
    | none =>
      let record ← (finish draft).mapError short
      if names.length < items.length then .error (.tooLong items.length) else .ok record
  | j => j.mismatch ("struct " ++ type)

def named (known : List (String × β)) (s : String) : Except DecodeError β :=
  match known.find? fun e => e.1 == s with
  | some e => .ok e.2
  | none => .error (.unknownVariant s (known.map Prod.fst))

/-- One of a fixed set of names, alone or as the key of a null. -/
def asName (known : List (String × β)) : Json α → Except DecodeError β
  | .str s => named known s
  | .obj [(s, v)] => do
    let name ← named known s
    match v with
    | .null => .ok name
    | j => j.mismatch "unit"
  | .obj _ => .error (.invalidValue .map "map with a single key")
  | j => j.mismatch "string or map"

end Json

end Partitura
