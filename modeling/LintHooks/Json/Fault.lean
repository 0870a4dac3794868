import LintHooks.Text.Utf8
set_option autoImplicit false

/-!
# JSON: faults

What can be wrong with a JSON text, and where.  A fault remembers the rest of the
text at which it was found; its line and column are worked out when it is shown.
Columns count bytes.
-/

namespace LintHooks.Json

/-- What is wrong. -/
inductive Reason where
  | endInList | endInObject | endInText | endInValue
  | noColon | noListEnd | noObjectEnd | noWord | noValue
  | badEscape | badNumber | numberTooLarge | controlCharacter | keyNoText
  | loneSurrogate | trailingComma | trailingCharacters | escapeCutShort
  /-- A value of the wrong sort. -/
  | wrongSort (found wanted : String)
  | missingField (name : String)
  | repeatedField (name : String)
  /-- A list that stands for a record has too few items. -/
  | tooShort (length : Nat) (wanted : String)
  deriving DecidableEq, Repr, Inhabited

def Reason.message : Reason → String
  | .endInList => "EOF while parsing a list"
  | .endInObject => "EOF while parsing an object"
  | .endInText => "EOF while parsing a string"
  | .endInValue => "EOF while parsing a value"
  | .noColon => "expected `:`"
  | .noListEnd => "expected `,` or `]`"
  | .noObjectEnd => "expected `,` or `\x7d`"
  | .noWord => "expected ident"
  | .noValue => "expected value"
  | .badEscape => "invalid escape"
  | .badNumber => "invalid number"
  | .numberTooLarge => "number out of range"
  | .controlCharacter => "control character (\\u0000-\\u001F) found while parsing a string"
  | .keyNoText => "key must be a string"
  | .loneSurrogate => "lone leading surrogate in hex escape"
  | .trailingComma => "trailing comma"
  | .trailingCharacters => "trailing characters"
  | .escapeCutShort => "unexpected end of hex escape"
  | .wrongSort found wanted => "invalid type: " ++ found ++ ", expected " ++ wanted
  | .missingField name => "missing field `" ++ name ++ "`"
  | .repeatedField name => "duplicate field `" ++ name ++ "`"
  | .tooShort length wanted =>
    "invalid length " ++ toString length ++ ", expected " ++ wanted

/-- Something wrong with a text. -/
structure Fault where
  reason : Reason
  /-- The text from where the fault was found. -/
  rest : List Char
  /-- How many bytes of it count as read. -/
  read : Nat := 0
  deriving DecidableEq, Repr, Inhabited

namespace Fault

/-- How many bytes a text takes. -/
def size (s : List Char) : Nat := s.foldl (fun n c => n + c.utf8Size) 0

/-- Lines and columns after some bytes, counted on from a line and a column. -/
def advance (at_ : Nat × Nat) (b : UInt8) : Nat × Nat :=
  if b = 10 then (at_.1 + 1, 0) else (at_.1, at_.2 + 1)

/-- The line and column of a fault in a text. -/
def position (input : List Char) (f : Fault) : Nat × Nat :=
  let bytes := (Text.encode (String.ofList input)).toList
  (bytes.take (size input - size f.rest + f.read)).foldl advance (1, 0)

/-- What is wrong with a text, and where. -/
def message (input : List Char) (f : Fault) : String :=
  let (line, column) := f.position input
  f.reason.message ++ " at line " ++ toString line ++ " column " ++ toString column

end Fault

/-- Takes something from the beginning of a text, or finds a fault. -/
abbrev Reader (α : Type) : Type := List Char → Except Fault (α × List Char)

/-- A fault found at a place. -/
def faultAt {α : Type} (reason : Reason) (rest : List Char) : Except Fault α :=
  .error { reason, rest }

/-- A fault found by looking at the next byte. -/
def faultAhead {α : Type} (reason : Reason) (rest : List Char) : Except Fault α :=
  .error { reason, rest, read := 1 }

/-- The characters that may stand between the parts of a text. -/
def isSpace (c : Char) : Bool := c = ' ' || c = '\n' || c = '\t' || c = '\r'

/-- The text after the space at its beginning. -/
def skipSpace (s : List Char) : List Char := s.dropWhile isSpace

end LintHooks.Json
