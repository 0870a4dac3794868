import LintHooks.Toml.Quoted
import LintHooks.Toml.Tree
set_option autoImplicit false

/-!
# TOML: reading values

Readers take a value from the beginning of a text and give back the rest.  What
is no value has no reading; why is not told.
-/

namespace LintHooks.Toml

/-- Takes something from the beginning of a text. -/
abbrev Reader (α : Type) : Type := List Char → Option (α × List Char)

/-! ## Blanks and comments -/

/-- The text after the blanks at its beginning. -/
def skipInline (s : List Char) : List Char := s.dropWhile isInlineBlank

/-- The text after the blanks, line feeds and comments at its beginning; `comment` says whether
it begins inside a comment. -/
def skipFiller (comment : Bool) : List Char → Option (List Char)
  | [] => if comment then none else some []
  | '\n' :: s => skipFiller false s
  | '\r' :: '\n' :: s => skipFiller false s
  | c :: s =>
    if comment then if isPlain c then skipFiller true s else none
    else if isInlineBlank c then skipFiller false s
    else if c = '#' then skipFiller true s
    else some (c :: s)

/-- The text after the end of a line, which may hold blanks and a comment. -/
def lineEnd? (s : List Char) : Option (List Char) :=
  let s := skipInline s
  let s := match s with
    | '#' :: s => s.dropWhile isPlain
    | _ => s
  match s with
  | [] => some []
  | _ => afterLineFeed? s

/-! ## Keys -/

/-- A character of a bare key. -/
def isBare (c : Char) : Bool := c.isAlphanum || c = '_' || c = '-'

/-- One part of a key: bare, or quoted on one line. -/
def readKeyPart? (s : List Char) : Option (String × List Char) :=
  match s with
  | '"' :: s => (readBasic? s).map fun (k, s) => (String.ofList k, s)
  | '\'' :: s => (readLiteral? s).map fun (k, s) => (String.ofList k, s)
  | s =>
    let k := s.takeWhile isBare
    if k = [] then none else some (String.ofList k, s.dropWhile isBare)

/-- A key with at most `parts` parts, with the blanks around them. -/
def readKeyParts? : Nat → Reader (List String)
  | 0, _ => none
  | parts + 1, s => do
    let (k, s) ← readKeyPart? (skipInline s)
    match skipInline s with
    | '.' :: s => (readKeyParts? parts s).map fun (ks, s) => (k :: ks, s)
    | s => some ([k], s)

/-- How deep keys and values may nest. -/
def nestingLimit : Nat := 79

/-- A key. -/
def readKey? : Reader (List String) := readKeyParts? nestingLimit

/-! ## Numbers -/

/-- Digits of a class after a first one; single underscores may stand between them. -/
def digitsTail (p : Char → Bool) : List Char → List Char × List Char
  | '_' :: c :: s =>
    if p c then
      let (ds, rest) := digitsTail p s
      (c :: ds, rest)
    else ([], '_' :: c :: s)
  | c :: s =>
    if p c then
      let (ds, rest) := digitsTail p s
      (c :: ds, rest)
    else ([], c :: s)
  | [] => ([], [])

/-- One or more digits of a class; single underscores may stand between them. -/
def readDigits? (p : Char → Bool) : Reader (List Char)
  | c :: s =>
    if p c then
      let (ds, rest) := digitsTail p s
      some (c :: ds, rest)
    else none
  | [] => none

/-- The digits of a base. -/
def isDigitOf (base : Nat) (c : Char) : Bool := (hexValue? c).any (· < base)

/-- The number that digits of a base denote. -/
def digitsValue (base : Nat) (ds : List Char) : Nat :=
  ds.foldl (fun n c => base * n + (hexValue? c).getD 0) 0

/-- An integer, if it fits into 64 bits. -/
def integer? (n : Int) : Option Value :=
  if -0x8000000000000000 ≤ n ∧ n ≤ 0x7FFFFFFFFFFFFFFF then some (.integer n) else none

/-- An integer in a base that is no ten. -/
def readRadix? (base : Nat) (s : List Char) : Option (Value × List Char) := do
  let (ds, s) ← readDigits? (isDigitOf base) s
  (integer? (digitsValue base ds)).map fun v => (v, s)

/-- The digits before the point: a zero alone, or no zero first. -/
def readWhole? : Reader (List Char)
  | '0' :: s => some (['0'], s)
  | s => readDigits? Char.isDigit s

/-- The sign of a number. -/
def readSign : List Char → Bool × List Char
  | '-' :: s => (true, s)
  | '+' :: s => (false, s)
  | s => (false, s)

/-- An exponent. -/
def readExponent? (s : List Char) : Option (Int × List Char) := do
  let (negative, s) := readSign s
  let (ds, s) ← readDigits? Char.isDigit s
  let n : Int := digitsValue 10 ds
  some (if negative then -n else n, s)

/-- A number with a fraction or an exponent, after its whole part.  A number too large for its
type is none. -/
def readFloat? (negative : Bool) (whole : List Char) (s : List Char) :
    Option (Value × List Char) := do
  let (fraction, s) ← match s with
    | '.' :: s => readDigits? Char.isDigit s
    | s => some ([], s)
  let (exponent, s) ← match s with
    | 'e' :: s => readExponent? s
    | 'E' :: s => readExponent? s
    | s => some (0, s)
  let x := Double.ofDecimal negative (digitsValue 10 (whole ++ fraction))
    (exponent - fraction.length)
  if x.isPositiveInfinity then none else some (.number x, s)

/-- Whether a text goes on like a number with a fraction or an exponent. -/
def goesOnAsFloat : List Char → Bool
  | c :: _ => c = '.' || c = 'e' || c = 'E'
  | [] => false

/-- A number with a sign. -/
def readSigned? (s : List Char) : Option (Value × List Char) :=
  let (negative, s) := readSign s
  match s with
  | 'i' :: 'n' :: 'f' :: s => some (.number (.infinite negative), s)
  | 'n' :: 'a' :: 'n' :: s => some (.number .nan, s)
  | s => do
    let (whole, s) ← readWhole? s
    if goesOnAsFloat s then readFloat? negative whole s
    else
      let n : Int := digitsValue 10 whole
      (integer? (if negative then -n else n)).map fun v => (v, s)

/-- A number, or a point in time. -/
def readNumber? (s : List Char) : Option (Value × List Char) :=
  match DateTime.read? s with
  | some (t, s) => some (.moment t, s)
  | none =>
    match s with
    | '0' :: 'x' :: s => readRadix? 16 s
    | '0' :: 'o' :: s => readRadix? 8 s
    | '0' :: 'b' :: s => readRadix? 2 s
    | s => readSigned? s

/-! ## Values -/

/-- The rest of an array, with a bound on the number of its items. -/
def readItems? (item : Reader Value) : Nat → Reader (List Value)
  | 0, _ => none
  | n + 1, s => do
    match ← skipFiller false s with
    | ']' :: s => some ([], s)
    | s =>
      let (v, s) ← item s
      match ← skipFiller false s with
      | ']' :: s => some ([v], s)
      | ',' :: s => (readItems? item n s).map fun (vs, s) => (v :: vs, s)
      | _ => none

/-- A key with its value. -/
def readPair? (item : Reader Value) (s : List Char) :
    Option ((List String × Value) × List Char) := do
  let (key, s) ← readKey? s
  match s with
  | '=' :: s =>
    let (v, s) ← item (skipInline s)
    some ((key, v), s)
  | _ => none

/-- The pairs of an inline table that has some, with a bound on their number. -/
def readPairs? (item : Reader Value) : Nat → Reader (List (List String × Value))
  | 0, _ => none
  | n + 1, s => do
    let (p, s) ← readPair? item s
    match skipInline s with
    | '}' :: s => some ([p], s)
    | ',' :: s => (readPairs? item n s).map fun (ps, s) => (p :: ps, s)
    | _ => none

/-- Adds a pair to a table. -/
def addPair (es : Entries) (p : List String × Value) : Option Entries :=
  match p.1.getLast? with
  | none => none
  | some key => setValue p.1.dropLast key p.2 es

/-- An inline table, after its opening brace. -/
def readInlineTable? (item : Reader Value) (s : List Char) : Option (Value × List Char) := do
  match skipInline s with
  | '}' :: s => some (.table [], s)
  | s =>
    let (pairs, s) ← readPairs? item s.length s
    let entries ← pairs.foldlM addPair []
    some (.table (entriesValue entries), s)

/-- A value that holds no other values. -/
def readScalar? (s : List Char) : Option (Value × List Char) :=
  match s with
  | '"' :: _ | '\'' :: _ => (readQuoted? s).map fun (t, s) => (.text (String.ofList t), s)
  | 't' :: 'r' :: 'u' :: 'e' :: s => some (.truth true, s)
  | 'f' :: 'a' :: 'l' :: 's' :: 'e' :: s => some (.truth false, s)
  | s => readNumber? s

/-- A value inside which arrays and tables may nest `depth` deep. -/
def readValue? : Nat → Reader Value
  | 0, s => readScalar? s
  | depth + 1, s =>
    match s with
    | '[' :: s => (readItems? (readValue? depth) (s.length + 1) s).map fun (vs, s) => (.array vs, s)
    | '{' :: s => readInlineTable? (readValue? depth) s
    | s => readScalar? s

end LintHooks.Toml
