import Partitura.Toml.Complaint
import Partitura.Toml.Grammar

/-!
# How far a text can be read

A walk goes through a text as its reader does, and says where it stops and why. A
stop may be tried to be got round by reading the same text as something else; past some
points, as after the quote that begins a text, it is final. What is tried last says
where the walk stopped.
-/

namespace Partitura.Toml

structure Stop where
  rest : List Char
  complaint : Complaint
  isFinal : Bool

/-- The text after something that can be read, or where its reading stopped. -/
abbrev Walk := Except Stop (List Char)

namespace Walk

def stop (rest : List Char) (complaint : Complaint) : Walk := .error ⟨rest, complaint, false⟩

def halt (rest : List Char) (complaint : Complaint) : Walk := .error ⟨rest, complaint, true⟩

def final (w : Walk) : Walk := w.mapError fun s => { s with isFinal := true }

def named (subject : Subject) (w : Walk) : Walk :=
  w.mapError fun s => { s with complaint := s.complaint.named subject }

def wanting (wanted : List Wanted) (w : Walk) : Walk :=
  w.mapError fun s => { s with complaint := s.complaint.wanting wanted }

/-- Another walk in the place of one that stopped before any point of no return. -/
def orElse (w : Walk) (other : Unit → Walk) : Walk :=
  match w with
  | .error s => if s.isFinal then w else other ()
  | .ok _ => w

end Walk

open Walk

def walkChar (p : Char → Bool) : List Char → Walk
  | c :: rest => if p c then .ok rest else stop (c :: rest) .bare
  | [] => stop [] .bare

/-! ## Texts -/

def escapeMarks : List Char := ['b', 'f', 'n', 'r', 't', 'u', 'U', '\\', '"']

def walkCodePoint (width : Nat) (cs : List Char) : Walk :=
  let digits := (cs.take width).takeWhile fun c => (Number.hexValue? c).isSome
  let complaint := Complaint.bare.named (.codePoint width)
  if digits.length < width then halt cs complaint
  else if (codePoint? digits).isNone then halt cs { complaint with cause := some .outOfRange }
  else .ok (cs.drop width)

/-- A walk over an escape, whose backslash has been read. A character that begins none is
passed, if it has one byte. -/
def walkEscape : List Char → Walk
  | [] => stop [] .bare
  | c :: rest =>
    if c = 'u' then walkCodePoint 4 rest
    else if c = 'U' then walkCodePoint 8 rest
    else if escapeMarks.contains c then .ok rest
    else
      halt (if c.utf8Size = 1 then rest else c :: rest)
        ((Complaint.bare.named .escape).wanting
          (escapeMarks.map fun c => .mark (String.singleton c)))

def walkBasic : Nat → List Char → Walk
  | 0, cs => halt cs .bare
  | fuel + 1, cs =>
    let unclosed := halt cs (Complaint.bare.named (.text .basic))
    match cs with
    | '"' :: rest => .ok rest
    | '\\' :: rest =>
      match walkEscape rest with
      | .ok rest => walkBasic fuel rest
      | .error s => if s.isFinal then .error s else unclosed
    | c :: rest => if isLineChar c then walkBasic fuel rest else unclosed
    | [] => unclosed

def walkLiteral (cs : List Char) : Walk :=
  ((walkChar (· == '\'') (cs.dropWhile fun c => isLineChar c && c != '\'')).named
    (.text .literal)).final

def walkLongChar (quote : Char) (escapes : Bool) : List Char → Walk
  | [] => stop [] .bare
  | c :: rest =>
    if escapes && c == '\\' then
      match afterContinuation? rest with
      | some rest => .ok rest
      | none => walkEscape rest
    else
      match lineBreak? (c :: rest) with
      | some rest => .ok rest
      | none => walkChar (fun c => isLineChar c && c != quote) (c :: rest)

/-- A walk over what a text of several lines holds, and the quotes that end it. One or two
quotes belong to the text if more of it follows; in a text with escapes anything may follow. -/
def walkLong (quote : Char) (escapes : Bool) : Nat → List Char → Walk
  | 0, cs => halt cs .bare
  | fuel + 1, cs =>
    match walkLongChar quote escapes cs with
    | .ok rest => walkLong quote escapes fuel rest
    | .error s =>
      if s.isFinal then .error s
      else
        match closing? quote cs, cs.dropWhile (· == quote) with
        | some (_, rest), _ => .ok rest
        | none, c :: rest =>
          let goesOn := cs.head? == some quote
            && (escapes || (walkLongChar quote escapes (c :: rest)).isOk)
          if goesOn then walkLong quote escapes fuel (c :: rest) else halt cs .bare
        | none, [] => halt cs .bare

def walkText : List Char → Walk
  | '"' :: '"' :: '"' :: rest =>
    (walkLong '"' true (rest.length + 1) (dropLineBreak rest)).named (.text .longBasic)
  | '\'' :: '\'' :: '\'' :: rest =>
    (walkLong '\'' false (rest.length + 1) (dropLineBreak rest)).named (.text .longLiteral)
  | '"' :: rest => walkBasic (rest.length + 1) rest
  | _ :: rest => walkLiteral rest
  | [] => stop [] .bare

/-! ## Keys -/

def walkKeyPart (cs : List Char) : Walk := do
  let rest ← match skipSpace cs with
    | '"' :: rest => walkBasic (rest.length + 1) rest
    | '\'' :: rest => walkLiteral rest
    | cs =>
      if (cs.takeWhile isKeyChar).isEmpty then stop cs .bare else .ok (cs.dropWhile isKeyChar)
  .ok (skipSpace rest)

/-- A walk over the parts of a key, and their count. A point with no part after it is left. -/
def walkKeyParts : Nat → List Char → Except Stop (Nat × List Char)
  | 0, cs => .ok (0, cs)
  | fuel + 1, cs => do
    let rest ← walkKeyPart cs
    match rest with
    | '.' :: after =>
      match walkKeyParts fuel after with
      | .ok (count, rest) => .ok (count + 1, rest)
      | .error s => if s.isFinal then .error s else .ok (1, rest)
    | rest => .ok (1, rest)

def walkKey (cs : List Char) : Walk :=
  match walkKeyParts (cs.length + 1) cs with
  | .error s => named .key (.error s)
  | .ok (count, rest) => if maxDepth < count then stop cs (.ofCause .tooDeep) else .ok rest

/-! ## Lines -/

def walkLineBreak (cs : List Char) : Walk :=
  match cs, lineBreak? cs with
  | [], _ => .ok []
  | _, some rest => .ok rest
  | _, none => stop cs .bare

def walkLineEnd (cs : List Char) : Walk :=
  (walkLineBreak (skipComment (skipSpace cs))).wanting [.lineBreak, .mark "#"]

/-- A walk over blanks, comments and line ends within a list. A comment there needs the end
of its line; what stands in its place is passed, if it has one byte. -/
def walkLines : Nat → List Char → Walk
  | 0, cs => .ok cs
  | fuel + 1, cs =>
    let cs := skipSpace cs
    let afterComment := skipComment cs
    match lineBreak? afterComment with
    | some rest => walkLines fuel rest
    | none =>
      if cs.head? == some '#' || cs.head? == some '\r' then
        stop (afterComment.drop 1) .bare
      else .ok cs

end Partitura.Toml
