import LintHooks.Text.Basic
set_option autoImplicit false

/-!
# TOML: quoted texts

A text has four written forms: basic or literal, on one line or on several.
Reading accepts all four; writing takes the plainest that can hold the text.
-/

namespace LintHooks.Toml

/-! ## Reading -/

/-- A character that may stand for itself in any form: the tab and all that is neither a control
character nor a delete. -/
def isPlain (c : Char) : Bool := c = '\t' || (0x20 ≤ c.toNat && c.toNat ≠ 0x7F)

/-- The value of a hexadecimal digit. -/
def hexValue? (c : Char) : Option Nat :=
  if c.isDigit then some (c.toNat - '0'.toNat)
  else if 'a' ≤ c && c ≤ 'f' then some (c.toNat - 'a'.toNat + 10)
  else if 'A' ≤ c && c ≤ 'F' then some (c.toNat - 'A'.toNat + 10)
  else none

/-- The character with a code point given by hexadecimal digits, if there is one. -/
def codePoint? (digits : List Char) : Option Char := do
  let values ← digits.mapM hexValue?
  let n := values.foldl (fun n v => 16 * n + v) 0
  if n.isValidChar then some (Char.ofNat n) else none

/-- The character that an escape stands for, given the text after the backslash. -/
def readEscape? : List Char → Option (Char × List Char)
  | 'b' :: s => some ('\x08', s)
  | 't' :: s => some ('\t', s)
  | 'n' :: s => some ('\n', s)
  | 'f' :: s => some ('\x0c', s)
  | 'r' :: s => some ('\r', s)
  | '"' :: s => some ('"', s)
  | '\\' :: s => some ('\\', s)
  | 'u' :: a :: b :: c :: d :: s => (codePoint? [a, b, c, d]).map fun x => (x, s)
  | 'U' :: a :: b :: c :: d :: e :: f :: g :: h :: s =>
    (codePoint? [a, b, c, d, e, f, g, h]).map fun x => (x, s)
  | _ => none

theorem length_lt_of_readEscape? {s rest : List Char} {c : Char}
    (h : readEscape? s = some (c, rest)) : rest.length < s.length := by
  unfold readEscape? at h
  split at h
  case h_8 =>
    obtain ⟨_, _, hx⟩ := Option.map_eq_some_iff.1 h
    cases hx
    simp only [List.length_cons]
    omega
  case h_9 =>
    obtain ⟨_, _, hx⟩ := Option.map_eq_some_iff.1 h
    cases hx
    simp only [List.length_cons]
    omega
  case h_10 => cases h
  all_goals
    cases h
    exact Nat.lt_succ_self _

/-- A character in front of what a reader has found. -/
def consFound (c : Char) (found : Option (List Char × List Char)) :
    Option (List Char × List Char) :=
  found.map fun (text, rest) => (c :: text, rest)

/-- The basic form on one line, after its opening quote. -/
def readBasic? : List Char → Option (List Char × List Char)
  | [] => none
  | '"' :: s => some ([], s)
  | '\\' :: s =>
    match h : readEscape? s with
    | none => none
    | some (c, rest) =>
      have := length_lt_of_readEscape? h
      consFound c (readBasic? rest)
  | c :: s => if isPlain c then consFound c (readBasic? s) else none
termination_by s => s.length
decreasing_by all_goals simp_wf <;> omega

/-- The literal form on one line, after its opening quote. -/
def readLiteral? : List Char → Option (List Char × List Char)
  | [] => none
  | '\'' :: s => some ([], s)
  | c :: s => if isPlain c then consFound c (readLiteral? s) else none

/-- What follows three closing quotes: up to two more belong to the text. -/
def closing (q : Char) : List Char → List Char × List Char
  | c :: d :: s => if c = q then if d = q then ([q, q], s) else ([q], d :: s) else ([], c :: d :: s)
  | [c] => if c = q then ([q], []) else ([], [c])
  | [] => ([], [])

/-- The text after a line feed, if one stands at its beginning. -/
def afterLineFeed? : List Char → Option (List Char)
  | '\n' :: s => some s
  | '\r' :: '\n' :: s => some s
  | _ => none

/-- Blanks on one line. -/
def isInlineBlank (c : Char) : Bool := c = ' ' || c = '\t'

/-- The text after the blanks and line feeds at its beginning. -/
def skipBlankLines : List Char → List Char
  | '\n' :: s => skipBlankLines s
  | '\r' :: '\n' :: s => skipBlankLines s
  | c :: s => if isInlineBlank c then skipBlankLines s else c :: s
  | [] => []

theorem length_skipBlankLines (s : List Char) : (skipBlankLines s).length ≤ s.length := by
  fun_induction skipBlankLines s <;> simp_all <;> omega

/-- What follows a backslash at the end of a line: the line's end and all blanks after it. -/
def afterContinuation? (s : List Char) : Option (List Char) :=
  (afterLineFeed? (s.dropWhile isInlineBlank)).map skipBlankLines

theorem length_afterContinuation? {s rest : List Char} (h : afterContinuation? s = some rest) :
    rest.length < s.length := by
  simp only [afterContinuation?, Option.map_eq_some_iff] at h
  obtain ⟨a, ha, rfl⟩ := h
  have h₁ := length_skipBlankLines a
  have h₂ : (s.dropWhile isInlineBlank).length ≤ s.length :=
    (List.dropWhile_sublist _).length_le
  have h₃ : a.length < (s.dropWhile isInlineBlank).length := by
    unfold afterLineFeed? at ha
    split at ha
    case h_1 hs => cases ha; rw [hs]; exact Nat.lt_succ_self _
    case h_2 hs => cases ha; rw [hs]; exact Nat.lt_succ_of_lt (Nat.lt_succ_self _)
    case h_3 => cases ha
  omega

/-- The basic form on several lines, after its opening quotes. -/
def readBasicLines? : List Char → Option (List Char × List Char)
  | [] => none
  | '"' :: '"' :: '"' :: s => some (closing '"' s)
  | '\\' :: s =>
    match h : readEscape? s with
    | some (c, rest) =>
      have := length_lt_of_readEscape? h
      consFound c (readBasicLines? rest)
    | none =>
      match h : afterContinuation? s with
      | some rest =>
        have := length_afterContinuation? h
        readBasicLines? rest
      | none => none
  | '\r' :: '\n' :: s => consFound '\n' (readBasicLines? s)
  | c :: s => if isPlain c || c = '\n' then consFound c (readBasicLines? s) else none
termination_by s => s.length
decreasing_by all_goals simp_wf <;> omega

/-- The literal form on several lines, after its opening quotes. -/
def readLiteralLines? : List Char → Option (List Char × List Char)
  | [] => none
  | '\'' :: '\'' :: '\'' :: s => some (closing '\'' s)
  | '\r' :: '\n' :: s => consFound '\n' (readLiteralLines? s)
  | c :: s => if isPlain c || c = '\n' then consFound c (readLiteralLines? s) else none

/-- The text without the line feed that may follow opening quotes. -/
def dropLineFeed (s : List Char) : List Char := (afterLineFeed? s).getD s

/-- A quoted text of any form at the beginning of a text. -/
def readQuoted? : List Char → Option (List Char × List Char)
  | '"' :: '"' :: '"' :: s => readBasicLines? (dropLineFeed s)
  | '"' :: s => readBasic? s
  | '\'' :: '\'' :: '\'' :: s => readLiteralLines? (dropLineFeed s)
  | '\'' :: s => readLiteral? s
  | _ => none

/-! ## Writing -/

/-- The forms of a quoted text. -/
inductive QuoteForm where
  | basic | literal | basicLines | literalLines
  deriving DecidableEq, Repr

/-- A control character that no form can hold as it is. -/
def isControl (c : Char) : Bool :=
  (c.toNat < 0x20 && c ≠ '\t' && c ≠ '\n') || c.toNat = 0x7F

/-- The length of the longest run of a character, given that of the run at hand. -/
def longestRunFrom (q : Char) (current : Nat) : List Char → Nat
  | [] => current
  | c :: s => if c = q then longestRunFrom q (current + 1) s else max current (longestRunFrom q 0 s)

/-- The length of the longest run of a character. -/
def longestRun (q : Char) (s : List Char) : Nat := longestRunFrom q 0 s

/-- The plainest form that can hold a text. -/
def QuoteForm.of (s : List Char) : QuoteForm :=
  let controls := s.any isControl
  let backslash := s.contains '\\'
  let lineFeed := s.contains '\n'
  let quotes := longestRun '"' s
  let apostrophes := longestRun '\'' s
  if !controls && !backslash && quotes = 0 && !lineFeed then .basic
  else if !controls && apostrophes = 0 && !lineFeed then .literal
  else if !controls && !backslash && quotes ≤ 2 then .basicLines
  else if !controls && apostrophes ≤ 2 then .literalLines
  else if lineFeed then .basicLines
  else .basic

/-- An upper-case hexadecimal digit. -/
def upperHexDigit (n : Nat) : Char := (Nat.digitChar n).toUpper

/-- A character of a basic form that is neither a quote nor a line feed. -/
def escapeChar (c : Char) : List Char :=
  if c = '\x08' then ['\\', 'b']
  else if c = '\t' then ['\\', 't']
  else if c = '\x0c' then ['\\', 'f']
  else if c = '\r' then ['\\', 'r']
  else if c = '\\' then ['\\', '\\']
  else if isControl c then
    ['\\', 'u', '0', '0', upperHexDigit (c.toNat / 16), upperHexDigit (c.toNat % 16)]
  else [c]

/-- The inside of the basic form on one line. -/
def escapeBasic : List Char → List Char
  | [] => []
  | c :: s =>
    (if c = '"' then ['\\', '"'] else if c = '\n' then ['\\', 'n'] else escapeChar c)
      ++ escapeBasic s

/-- The inside of the basic form on several lines; `run` quotes stand in front.  A third quote
in a row is escaped. -/
def escapeBasicLines (run : Nat) : List Char → List Char
  | [] => []
  | c :: s =>
    if c = '"' then
      if run = 2 then '\\' :: '"' :: escapeBasicLines 0 s else '"' :: escapeBasicLines (run + 1) s
    else (if c = '\n' then ['\n'] else escapeChar c) ++ escapeBasicLines 0 s

/-- A text in one of the forms.  The forms on several lines begin with a line feed if the text
has one. -/
def QuoteForm.write (form : QuoteForm) (s : List Char) : List Char :=
  let start := if s.contains '\n' then ['\n'] else []
  match form with
  | .basic => ['"'] ++ escapeBasic s ++ ['"']
  | .literal => ['\''] ++ s ++ ['\'']
  | .basicLines => ['"', '"', '"'] ++ start ++ escapeBasicLines 0 s ++ ['"', '"', '"']
  | .literalLines => ['\'', '\'', '\''] ++ start ++ s ++ ['\'', '\'', '\'']

/-- The written form of a text. -/
def writeQuoted (s : List Char) : List Char := (QuoteForm.of s).write s

end LintHooks.Toml
