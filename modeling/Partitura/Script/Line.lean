import Partitura.Text.Blank

/-!
# Indented lines

A script is written line by line. A line may open a block, and then what follows
is indented by one step more, or close one, and then it stands where the block
was opened. An empty line has no indentation.
-/

namespace Partitura.Script

inductive Line where
  | plain (text : String)
  | opening (text : String)
  | closing (text : String)
deriving DecidableEq, Repr

namespace Line

def empty : Line := plain ""

/-- A comment; its text has to be on one line to be one as a whole. -/
def comment (text : String) : Line := plain ("// " ++ text)

def folded (text : String) : Line := comment (Text.oneLine text)

end Line

def indentation : String := "    "

def indented (depth : Nat) (text : String) : String :=
  if text = "" then "\n" else String.join (List.replicate depth indentation) ++ text ++ "\n"

def layout : Nat → List Line → String
  | _, [] => ""
  | depth, .plain text :: rest => indented depth text ++ layout depth rest
  | depth, .opening text :: rest => indented depth text ++ layout (depth + 1) rest
  | depth, .closing text :: rest => indented (depth - 1) text ++ layout (depth - 1) rest

end Partitura.Script
