import Partitura.Toml.Fault

/-!
# Reading TOML

A text is read if its grammar is that of TOML and its items mean a table. A mark
of the byte order may stand before it.
-/

namespace Partitura.Toml

def byteOrderMark : Char := '\uFEFF'

def dropByteOrderMark : List Char → List Char
  | c :: rest => if c = byteOrderMark then rest else c :: rest
  | [] => []

variable {α : Type} [Scalar α]

def parse (text : String) : Except Fault (Sorted (Toml α)) :=
  let cs := text.toList
  let (found, unread) : List (Placed α) × Option (List Char) :=
    items (cs.length + 1) (dropByteOrderMark cs)
  match tableOf found, unread with
  | .ok entries, none => .ok entries
  | .ok _, some item => .error (faultOf α cs item .bare)
  | .error refusal, _ => .error (faultOf α cs refusal.text refusal.complaint)

end Partitura.Toml
