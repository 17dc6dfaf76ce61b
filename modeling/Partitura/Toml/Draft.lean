import Partitura.Toml.Complaint
import Partitura.Toml.Grammar

/-!
# What the items of TOML mean

Pairs put values into tables, and the parts of a key before the last one name
tables within tables. A table comes about in one of three ways: by a head of its
own, by the head of a table within it, or by the parts of a key. One that came
about by the head of a table within it can still get a head of its own. One that
came about by the parts of a key can only be extended by further keys. No key
gets two values, and nothing is put into a table in braces once it is closed. A
head within a list of tables goes into its last element.
-/

namespace Partitura.Toml

inductive Origin where
  | head | inner | dotted
deriving DecidableEq, Repr

inductive Draft (α : Type) where
  | value (v : Toml α)
  | table (origin : Origin) (entries : List (String × Draft α))
  | tables (elements : List (List (String × Draft α)))

variable {α : Type}

abbrev Entries (α : Type) := List (String × Draft α)

def entry? (key : String) : Entries α → Option (Draft α)
  | [] => none
  | (k, d) :: rest => if k = key then some d else entry? key rest

/-- The entries with one put at a key, in place if the key is there. -/
def putEntry (key : String) (d : Draft α) : Entries α → Entries α
  | [] => [(key, d)]
  | (k, e) :: rest => if k = key then (k, d) :: rest else (k, e) :: putEntry key d rest

def onLast {ε β : Type} (f : β → Except ε β) : List β → Except ε (List β)
  | [] => .ok []
  | [x] => do .ok [← f x]
  | x :: rest => do .ok (x :: (← onLast f rest))

/-- Why a key that needs a table cannot go through a value. In braces, a table that stands as
a value is complete, which makes its key a taken one. -/
def blocked (holder : Option (List String)) (path : List String) (part : String) :
    Toml α → Cause
  | .table _ =>
    if holder.isNone then .taken part none else .noTable (path ++ [part]) "inline table"
  | v => .noTable (path ++ [part]) (kindTitle v)

/-- Puts a value at a key of a table, the parts of the key before the last one being given,
and those that have been followed already. `holder` is the key of the table in which all
this happens, unless it stands in braces. -/
def putValue (holder : Option (List String)) (key : String) (v : Toml α) (path : List String) :
    List String → Entries α → Except Cause (Entries α)
  | [], entries =>
    match entry? key entries with
    | none => .ok (putEntry key (.value v) entries)
    | some _ => .error (.taken key holder)
  | part :: parts, entries => do
    let inside := putValue holder key v (path ++ [part]) parts
    let next ← match entry? part entries with
      | none => Draft.table .dotted <$> inside []
      | some (.table .dotted within) => Draft.table .dotted <$> inside within
      | some (.table .inner within) =>
        if parts.isEmpty then .error (.taken key none) else Draft.table .inner <$> inside within
      | some (.table .head _) => .error (.taken part none)
      | some (.tables elements) =>
        if parts.isEmpty then .error (.taken key none) else Draft.tables <$> onLast inside elements
      | some (.value w) => .error (blocked holder path part w)
    .ok (putEntry part next entries)

def putPair (holder : Option (List String)) (key : List String) (v : Toml α)
    (entries : Entries α) : Except Cause (Entries α) :=
  putValue holder (key.getLastD "") v [] key.dropLast entries

/-- Changes the table that the parts of a head before its last one lead to, some parts
having been followed already. -/
def within {ε : Type} (refuse : Cause → ε) (f : Entries α → Except ε (Entries α))
    (path : List String) : List String → Entries α → Except ε (Entries α)
  | [], entries => f entries
  | part :: parts, entries => do
    let inside := within refuse f (path ++ [part]) parts
    let next ← match entry? part entries with
      | none => Draft.table .inner <$> inside []
      | some (.table origin entries) => Draft.table origin <$> inside entries
      | some (.tables elements) => Draft.tables <$> onLast inside elements
      | some (.value v) => .error (refuse (.noTable (path ++ [part]) (kindTitle v)))
    .ok (putEntry part next entries)

mutual

def finish : Draft α → Toml α
  | .value v => v
  | .table _ entries => .table (Sorted.ofList (finishEntries entries))
  | .tables elements => .array (finishElements elements)

def finishEntries : Entries α → List (String × Toml α)
  | [] => []
  | (key, d) :: rest => (key, finish d) :: finishEntries rest

def finishElements : List (Entries α) → List (Toml α)
  | [] => []
  | entries :: rest => .table (Sorted.ofList (finishEntries entries)) :: finishElements rest

end

/-! ## Meanings -/

mutual

def Written.meaning : Written α → Except Cause (Toml α)
  | .plain v => .ok v
  | .list items => Toml.array <$> meanings items
  | .braces pairs => do
    let entries ← bracesMeaning pairs []
    .ok (.table (Sorted.ofList (finishEntries entries)))

def meanings : List (Written α) → Except Cause (List (Toml α))
  | [] => .ok []
  | w :: rest => do .ok ((← w.meaning) :: (← meanings rest))

def bracesMeaning : List (List String × Written α) → Entries α → Except Cause (Entries α)
  | [], entries => .ok entries
  | (key, w) :: rest, entries => do
    bracesMeaning rest (← putPair none key (← w.meaning) entries)

end

structure Line (α : Type) where
  text : List Char
  key : List String
  value : Written α

structure Part (α : Type) where
  text : List Char
  isElement : Bool
  key : List String
  lines : List (Line α)

def parts : List (Placed α) → List (Line α) × List (Part α)
  | [] => ([], [])
  | p :: rest =>
    let (lines, later) := parts rest
    match p.item with
    | .pair key v => (⟨p.text, key, v⟩ :: lines, later)
    | .head key => ([], ⟨p.text, false, key, lines⟩ :: later)
    | .listHead key => ([], ⟨p.text, true, key, lines⟩ :: later)

structure Refusal where
  text : List Char
  isHead : Bool
  cause : Cause

def putLines (holder : List String) : List (Line α) → Entries α → Except Refusal (Entries α)
  | [], entries => .ok entries
  | line :: rest, entries => do
    let refuse := Refusal.mk line.text false
    let v ← line.value.meaning.mapError refuse
    putLines holder rest (← (putPair (some holder) line.key v entries).mapError refuse)

def Part.putInto (p : Part α) (entries : Entries α) : Except Refusal (Entries α) :=
  let key := p.key.getLastD ""
  let refusal := Refusal.mk p.text true (.taken (keyOnLine key) (some p.key.dropLast))
  match p.isElement, entry? key entries with
  | true, none => do .ok (putEntry key (.tables [← putLines p.key p.lines []]) entries)
  | true, some (.tables elements) => do
    .ok (putEntry key (.tables (elements ++ [← putLines p.key p.lines []])) entries)
  | false, none => do .ok (putEntry key (.table .head (← putLines p.key p.lines [])) entries)
  | false, some (.table .inner inside) => do
    .ok (putEntry key (.table .head (← putLines p.key p.lines inside)) entries)
  | _, _ => .error refusal

def Part.put (entries : Entries α) (p : Part α) : Except Refusal (Entries α) :=
  within (Refusal.mk p.text true) p.putInto [] p.key.dropLast entries

def tableOf (found : List (Placed α)) : Except Refusal (Sorted (Toml α)) := do
  let (lines, later) := parts found
  let entries ← putLines [] lines []
  .ok (Sorted.ofList (finishEntries (← later.foldlM Part.put entries)))

end Partitura.Toml
