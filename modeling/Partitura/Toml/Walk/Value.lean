import Partitura.Toml.Draft
import Partitura.Toml.Walk.Number

/-!
# How far values and items can be read

A list ends where no element can be read any more, and so do the pairs in braces. Braces
have to mean a table before their end is looked for.
-/

namespace Partitura.Toml

open Walk

variable {α : Type} [Scalar α]

/-! ## Lists and braces -/

def walkElement (walk : List Char → Walk) (cs : List Char) : Walk := do
  let rest ← walk (← walkLines (cs.length + 1) cs)
  walkLines (rest.length + 1) rest

def walkListEnd (cs : List Char) : Walk := do
  let rest ← (walkLines (cs.length + 1) cs).final
  (((walkMark ']' rest).named .list).wanting [.mark "]"]).final

def walkList (walk : List Char → Walk) : Nat → List Char → Walk
  | 0, cs => halt cs .bare
  | fuel + 1, cs =>
    match walkElement walk cs with
    | .ok (',' :: rest) => walkList walk fuel rest
    | .ok rest => walkListEnd rest
    | .error s => if s.isFinal then .error s else walkListEnd cs

/-- A walk over a key and an equals sign, which is final after the key. -/
def walkKeyAndSign (cs : List Char) : Walk := do
  let rest ← walkKey cs
  .ok (skipSpace (← ((walkMark '=' rest).wanting [.mark ".", .mark "="]).final))

def walkPair (walk : List Char → Walk) (cs : List Char) : Walk := do
  .ok (skipSpace (← (walk (← walkKeyAndSign cs)).final))

def walkBracesEnd (opened : List Char) (pairs : List (List String × Written α))
    (cs : List Char) : Walk :=
  match bracesMeaning pairs [] with
  | .error cause => halt opened (.ofCause cause)
  | .ok _ => (((walkMark '\x7d' (skipSpace cs)).named .braces).wanting [.mark "\x7d"]).final

/-- A walk over braces from a place where a pair may stand; they end at another place if
none does. -/
def walkBraces (walk : List Char → Walk) (read : List Char → Option (Written α × List Char))
    (opened : List Char) :
    Nat → List (List String × Written α) → List Char → List Char → Walk
  | 0, _, _, cs => halt cs .bare
  | fuel + 1, pairs, otherwise, cs =>
    match walkPair walk cs with
    | .error s => if s.isFinal then .error s else walkBracesEnd opened pairs otherwise
    | .ok rest =>
      let pairs := pairs ++ ((pair? read cs).map Prod.fst).toList
      match rest with
      | ',' :: later => walkBraces walk read opened fuel pairs rest later
      | rest => walkBracesEnd opened pairs rest

/-! ## Values -/

/-- A walk over a value that is a word, a text being what was meant otherwise. -/
def walkNamed (cs : List Char) : Walk :=
  wanting [.mark "\"", .mark "'"] <| named .anyText <|
    match cs with
    | 't' :: _ => (walkWord "true" cs).final
    | 'f' :: _ => (walkWord "false" cs).final
    | 'i' :: _ => walkWord "inf" cs
    | 'n' :: _ => walkWord "nan" cs
    | cs => stop cs .bare

def walkValue (α : Type) [Scalar α] : Nat → List Char → Walk
  | _, [] => stop [] .bare
  | depth, c :: rest =>
    if c = '"' ∨ c = '\'' then walkText (c :: rest)
    else if c = '[' then
      match depth with
      | 0 => halt (c :: rest) (.ofCause .tooDeep)
      | depth + 1 => walkList (walkValue α depth) (rest.length + 1) rest
    else if c = '\x7b' then
      match depth with
      | 0 => halt (c :: rest) (.ofCause .tooDeep)
      | depth + 1 =>
        walkBraces (walkValue α depth) (value? depth : List Char → Option (Written α × List Char))
          rest (rest.length + 1) [] rest rest
    else if c.isDigit || isSign c then walkNumeric α (c :: rest)
    else if c = '_' then (walkInteger (c :: rest)).wanting [.leadingDigit]
    else if c = '.' then (walkDecimal α (c :: rest)).wanting [.leadingDigit]
    else walkNamed (c :: rest)

/-! ## Items -/

def walkHead (closing : String) (cs : List Char) : Walk := do
  let rest ← (walkKey cs).final
  walkLineEnd (← ((walkWord closing rest).wanting [.mark ".", .mark closing]).final)

/-- A walk over an item of a document. A bracket alone begins no head. -/
def walkItem (α : Type) [Scalar α] : List Char → Walk
  | '#' :: rest => walkLineBreak (skipComment ('#' :: rest))
  | '\r' :: rest => walkLineBreak ('\r' :: rest)
  | ['['] => named .head (stop ['['] .bare)
  | '[' :: '[' :: rest => (walkHead "]]" rest).named .head
  | '[' :: rest => (walkHead "]" rest).named .head
  | cs => do walkLineEnd (← walkValue α maxDepth (← walkKeyAndSign cs))

end Partitura.Toml
