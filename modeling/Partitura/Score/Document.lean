import Partitura.Score.Reader

/-!
# Documents in the score format

A document that names the score format is read as it stands. A pitch between two
numbers becomes the nearer one and a detuning of the rest; in a chord, which has
one detuning for all its pitches, the rest is lost. Of a document that cannot be
read as a whole, the fields that can be read alone are kept, and of the parts
those that can, while everything else is noted as rejected.
-/

namespace Partitura

variable {α : Type} [Scalar α]

def isDocument (j : Json α) : Bool :=
  (j.get? "formatId").bind Json.string? == some formatName

/-- The number nearest to a pitch that is not written as an integer, and the cents left over. -/
def splitPitch : Json α → Option (Int × α)
  | .real x => some (Scalar.integer (Scalar.round x), (x - Scalar.round x) * 100)
  | _ => none

def roundPitch (j : Json α) : Json α :=
  match splitPitch j with
  | some (n, _) => .int n
  | none => j

/-- The fields of a note with the fraction of its pitch moved to the detuning. -/
def settlePitch (fields : List (String × Json α)) : List (String × Json α) :=
  match Json.lookup "note" fields with
  | some (.arr pitches) => Json.put "note" (.arr (pitches.map roundPitch)) fields
  | some pitch =>
    match splitPitch pitch with
    | some (n, cents) =>
      let fields := Json.put "note" (.int n) fields
      if cents == 0 then fields
      else
        let base := ((Json.lookup "microtuning" fields).bind Json.scalar?).getD 0
        Json.put "microtuning" (Json.ofScalar (base + cents)) fields
    | none => fields
  | none => fields

def settleNote : Json α → Json α
  | .obj fields => .obj (settlePitch fields)
  | j => j

def mapListAt (key : String) (f : Json α → Json α) : Json α → Json α
  | .obj fields =>
    match Json.lookup key fields with
    | some (.arr items) => .obj (Json.put key (.arr (items.map f)) fields)
    | _ => .obj fields
  | j => j

def settlePitches (j : Json α) : Json α :=
  mapListAt "sequences" (mapListAt "notes" settleNote) j

/-- What is wrong with a part: its first unreadable note, or its own failure. -/
def partFailure (index : Nat) (item : Json α) (failure : DecodeError) : String :=
  let notes := ((item.get? "notes").bind Json.array?).getD []
  let bad := notes.zipIdx.findSome? fun (note, j) =>
    match (Note.read note : Except DecodeError (Note α)) with
    | .error e => some (j, e)
    | .ok _ => none
  let part := "sequences[" ++ toString index ++ "]"
  match bad with
  | some (j, e) => part ++ ".notes[" ++ toString j ++ "]: " ++ e.message
  | none => part ++ ": " ++ failure.message

structure Salvage (α : Type) where
  kept : List (String × Json α)
  rejected : List String

def salvageParts (items : List (Json α)) : List (Json α) × List String :=
  let failures := items.zipIdx.filterMap fun (item, i) =>
    match (Part.read item : Except DecodeError (Part α)) with
    | .error e => some (partFailure i item e)
    | .ok _ => none
  (items.filter fun item => (Part.read item : Except DecodeError (Part α)).isOk, failures)

def Salvage.add (s : Salvage α) (field : String × Json α) : Salvage α :=
  match field with
  | ("sequences", .arr items) =>
    let (readable, failures) := salvageParts items
    ⟨s.kept ++ [("sequences", .arr readable)], s.rejected ++ failures⟩
  | (name, value) =>
    match (Score.read (.obj [(name, value)]) : Except DecodeError (Score α)) with
    | .ok _ => ⟨s.kept ++ [(name, value)], s.rejected⟩
    | .error e => ⟨s.kept, s.rejected ++ [name ++ ": " ++ e.message]⟩

def salvage : Json α → Score α
  | .obj fields =>
    let s : Salvage α := fields.foldl Salvage.add ⟨[], []⟩
    let score := (Score.read (.obj s.kept)).toOption.getD Score.empty
    { score with rejected := s.rejected }
  | _ => Score.empty

def readDocument (j : Json α) : Score α :=
  let settled := settlePitches j
  match Score.read settled with
  | .ok score => score
  | .error _ => salvage settled

end Partitura
