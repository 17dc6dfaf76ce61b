import Partitura.Toml.Walk.Value

/-!
# What is wrong with a text that is no TOML

At fault is the first item that cannot be read, or that means nothing after those
before it. The place of an item that cannot be read is where reading it stops; any
other item is at fault where it starts.
-/

namespace Partitura.Toml

/-- A complaint with its place: the line and the column, both counted from zero, the text
of the line, and how much of it is marked. -/
structure Fault where
  complaint : Complaint
  line : Nat
  column : Nat
  text : String
  width : Nat
deriving DecidableEq, Repr

def spaces (n : Nat) : String := String.ofList (List.replicate n ' ')

namespace Fault

/-- A fault before the last `remaining` characters of a text. An end of the text lies one
column after its last character. The column of a character that takes several bytes counts
the bytes before it, that of any other one the characters. -/
def atPlace (cs : List Char) (complaint : Complaint) (remaining : Nat) : Fault :=
  let index := cs.length - remaining
  let last := min index (cs.length - 1)
  let before := cs.take last
  let line := before.count '\n'
  let inLine := before.reverse.takeWhile (· != '\n')
  let size := ((cs.drop index).head?.map Char.utf8Size).getD 0
  let column :=
    if 1 < size then (String.ofList inLine).utf8ByteSize else inLine.length + (index - last)
  let text := String.ofList (((Text.cutWhere (· == '\n') cs)[line]?).getD [])
  ⟨complaint, line, column, text, min size (text.utf8ByteSize - column)⟩

def message (f : Fault) : String :=
  let number := toString (f.line + 1)
  let margin := spaces (number.length + 1) ++ "|"
  "TOML parse error at line " ++ number ++ ", column " ++ toString (f.column + 1) ++ "\n"
    ++ margin ++ "\n" ++ number ++ " | " ++ f.text ++ "\n"
    ++ margin ++ spaces (f.column + 1) ++ String.ofList (List.replicate (max f.width 1) '^')
    ++ "\n" ++ f.complaint.message ++ "\n"

end Fault

variable (α : Type) [Scalar α]

/-- The fault of a text whose first item at fault starts a text that is its end, and has a
complaint if it can be read. -/
def faultOf (cs item : List Char) (complaint : Complaint) : Fault :=
  match walkItem α item with
  | .error s => Fault.atPlace cs s.complaint s.rest.length
  | .ok _ => Fault.atPlace cs complaint item.length

def Refusal.complaint (r : Refusal) : Complaint :=
  let complaint := Complaint.ofCause r.cause
  if r.isHead then complaint.named .head else complaint

end Partitura.Toml
