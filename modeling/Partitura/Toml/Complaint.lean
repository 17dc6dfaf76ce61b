import Partitura.Toml.Quoted

/-!
# Complaints about TOML

A complaint says what was being read, what could have stood at the place, and why
what was read cannot stand. Any of the three may be missing.
-/

namespace Partitura.Toml

inductive Subject where
  | key
  | head
  | list
  | braces
  | anyText
  | text (form : Form)
  | escape
  | codePoint (digits : Nat)
  | integer
  | hexadecimal
  | octal
  | binary
  | decimal
  | moment
  | time
  | offset
deriving DecidableEq, Repr

def Form.title : Form → String
  | basic => "basic string"
  | literal => "literal string"
  | longBasic => "multiline basic string"
  | longLiteral => "multiline literal string"

def Subject.title : Subject → String
  | key => "key"
  | head => "table header"
  | list => "array"
  | braces => "inline table"
  | anyText => "string"
  | text form => form.title
  | escape => "escape sequence"
  | codePoint digits => "unicode " ++ toString digits ++ "-digit hex code"
  | integer => "integer"
  | hexadecimal => "hexadecimal integer"
  | octal => "octal integer"
  | binary => "binary integer"
  | decimal => "floating-point number"
  | moment => "date-time"
  | time => "time"
  | offset => "time offset"

inductive Wanted where
  | mark (s : String)
  | lineBreak
  | digit
  | leadingDigit
deriving DecidableEq, Repr

def Wanted.title : Wanted → String
  | mark s => "`" ++ s ++ "`"
  | lineBreak => "newline"
  | digit => "digit"
  | leadingDigit => "leading digit"

inductive Cause where
  | tooLarge
  | tooSmall
  | outOfRange
  | tooDeep
  /-- The key is in the table already, or stands for a table that is complete. -/
  | taken (key : String) (table : Option (List String))
  /-- The key leads into a value, of a kind, that is no table. -/
  | noTable (key : List String) (kind : String)
deriving DecidableEq, Repr

def joined : List String → String := ".".intercalate

def Cause.message : Cause → String
  | tooLarge => "number too large to fit in target type"
  | tooSmall => "number too small to fit in target type"
  | outOfRange => "value is out of range"
  | tooDeep => "recursion limit exceeded"
  | taken key none => "duplicate key `" ++ key ++ "`"
  | taken key (some []) => "duplicate key `" ++ key ++ "` in document root"
  | taken key (some path) => "duplicate key `" ++ key ++ "` in table `" ++ joined path ++ "`"
  | noTable key kind =>
    "dotted key `" ++ joined key ++ "` attempted to extend non-table type (" ++ kind ++ ")"

structure Complaint where
  subject : Option Subject
  wanted : List Wanted
  cause : Option Cause
deriving DecidableEq, Repr

namespace Complaint

def bare : Complaint := ⟨none, [], none⟩

def ofCause (cause : Cause) : Complaint := ⟨none, [], some cause⟩

def named (subject : Subject) (c : Complaint) : Complaint :=
  { c with subject := c.subject.or (some subject) }

def wanting (wanted : List Wanted) (c : Complaint) : Complaint :=
  { c with wanted := c.wanted ++ wanted }

def message (c : Complaint) : String :=
  let subject := c.subject.map fun s => "invalid " ++ s.title
  let wanted :=
    if c.wanted.isEmpty then none
    else some ("expected " ++ ", ".intercalate (c.wanted.map Wanted.title))
  "\n".intercalate (subject.toList ++ wanted.toList ++ (c.cause.map Cause.message).toList)

end Complaint

def kindTitle {α : Type} : Toml α → String
  | .bool _ => "boolean"
  | .integer _ => "integer"
  | .float _ => "float"
  | .string _ => "string"
  | .moment _ => "datetime"
  | .array _ => "array"
  | .table _ => "inline table"

end Partitura.Toml
