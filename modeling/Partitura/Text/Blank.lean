/-!
# Blanks, trimming and splitting

A blank is a character with the Unicode property White_Space. Cutting a text at
a character is written on lists of characters, so that the pieces and the
separators between them can be put together again.
-/

namespace Partitura.Text

/-- Closed ranges of the code points with the property White_Space, ascending and apart. -/
def blankRanges : List (Nat × Nat) :=
  [(0x09, 0x0D), (0x20, 0x20), (0x85, 0x85), (0xA0, 0xA0), (0x1680, 0x1680), (0x2000, 0x200A),
   (0x2028, 0x2029), (0x202F, 0x202F), (0x205F, 0x205F), (0x3000, 0x3000)]

def inRanges (ranges : List (Nat × Nat)) (n : Nat) : Bool :=
  ranges.any fun r => r.1 ≤ n && n ≤ r.2

def isBlank (c : Char) : Bool := inRanges blankRanges c.toNat

def trimChars (cs : List Char) : List Char :=
  ((cs.dropWhile isBlank).reverse.dropWhile isBlank).reverse

def trim (s : String) : String := String.ofList (trimChars s.toList)

/-- The pieces between the characters that satisfy a test; always at least one. -/
def cutWhere (p : Char → Bool) : List Char → List (List Char)
  | [] => [[]]
  | c :: r =>
    if p c then [] :: cutWhere p r
    else match cutWhere p r with
      | [] => [[c]]
      | piece :: rest => (c :: piece) :: rest

def cutAt (sep : Char) (s : String) : List String :=
  (cutWhere (· == sep) s.toList).map String.ofList

def words (s : String) : List String :=
  ((cutWhere isBlank s.toList).filter fun piece => !piece.isEmpty).map String.ofList

/-- A text on one line: its words with one space between them. -/
def oneLine (s : String) : String := " ".intercalate (words s)

def splitFirst (sep : Char) (s : String) : Option (String × String) :=
  let cs := s.toList
  match cs.dropWhile (· != sep) with
  | [] => none
  | _ :: rest => some (String.ofList (cs.takeWhile (· != sep)), String.ofList rest)

def lastPiece (sep : Char) (s : String) : String :=
  String.ofList ((s.toList.reverse.takeWhile (· != sep)).reverse)

def lower (s : String) : String := String.ofList (s.toList.map Char.toLower)

def sameLetters (s t : String) : Bool := s.toList.map Char.toLower == t.toList.map Char.toLower

def endsWith (s tail : String) : Bool := tail.toList.isSuffixOf s.toList

def startsWith (s head : String) : Bool := head.toList.isPrefixOf s.toList

def replaceChar (old new : Char) (s : String) : String :=
  String.ofList (s.toList.map fun c => if c == old then new else c)

end Partitura.Text
