import LintHooks.Shell.Basic
set_option autoImplicit false

/-!
# Shell: tokens

A script is read as words and operators, each with the number of its line.
-/

namespace LintHooks.Shell

/-- What a token is. -/
inductive TokenKind where
  | word (w : Word)
  | newline
  | semicolon
  | doubleSemicolon
  | andAnd
  | orOr
  | bar
  | openParen
  | closeParen
  /-- Sends a stream to the file that follows. -/
  | toFile (stream : Nat) (add : Bool)
  /-- Sends a stream to where the one that follows goes. -/
  | toStream (stream : Nat)
  deriving DecidableEq, Repr, Inhabited

/-- A token and its line. -/
structure Token where
  kind : TokenKind
  line : Nat
  deriving DecidableEq, Repr, Inhabited

/-- A character of a name. -/
def isNameChar (c : Char) : Bool := c.isAlphanum || c = '_'

/-- A character that ends a word. -/
def endsWord (c : Char) : Bool :=
  c = ' ' || c = '\t' || c = '\n' || c = ';' || c = '&' || c = '|' || c = '(' || c = ')' ||
  c = '<' || c = '>'

/-- A parameter that is a single sign. -/
def isSign (c : Char) : Bool :=
  c = '*' || c = '@' || c = '#' || c = '?' || c = '$' || c = '!' || c = '-'

/-- The change that follows the name of a parameter between braces. -/
def changeOf? (s : List Char) : Option Change :=
  match s with
  | [] => some .none
  | '#' :: '#' :: p => some (.cut .longestFront p)
  | '#' :: p => some (.cut .shortestFront p)
  | '%' :: '%' :: p => some (.cut .longestBack p)
  | '%' :: p => some (.cut .shortestBack p)
  | ':' :: '-' :: t => some (.orElse t)
  | ':' :: '+' :: t => some (.ifFilled t)
  | '-' :: t => some (.ifMissing t)
  | '+' :: t => some (.ifSet t)
  | _ => none

/-- The name of a parameter at the beginning of a text. -/
def parameterName? (s : List Char) : Option (List Char × List Char) :=
  match s with
  | c :: rest =>
    if isSign c || c.isDigit then some ([c], rest)
    else if isNameChar c then some (s.takeWhile isNameChar, s.dropWhile isNameChar)
    else none
  | [] => none

/-- The text before a pair of closing parentheses, and the rest after them. -/
def arithmeticText? (depth : Nat) : List Char → Option (List Char × List Char)
  | ')' :: ')' :: s =>
    if depth = 0 then some ([], s)
    else (arithmeticText? (depth - 1) (')' :: s)).map fun (t, rest) => (')' :: t, rest)
  | c :: s =>
    let depth := if c = '(' then depth + 1 else if c = ')' then depth - 1 else depth
    (arithmeticText? depth s).map fun (t, rest) => (c :: t, rest)
  | [] => none

/-- What follows a dollar sign: a piece, or nothing special. -/
def dollar? (quoted : Bool) (s : List Char) : Option (Piece × List Char) :=
  match s with
  | '(' :: '(' :: s => do
    let (t, rest) ← arithmeticText? 0 s
    some (.arithmetic t quoted, rest)
  | '{' :: '#' :: s =>
    match parameterName? s with
    | some (name, '}' :: rest) => some (.parameter (String.ofList name) .size quoted, rest)
    | _ =>
      match s with
      | '}' :: rest => some (.parameter "#" .none quoted, rest)
      | _ => none
  | '{' :: s => do
    let (name, rest) ← parameterName? s
    let inside := rest.takeWhile (· ≠ '}')
    match rest.dropWhile (· ≠ '}') with
    | '}' :: rest =>
      let change ← changeOf? inside
      some (.parameter (String.ofList name) change quoted, rest)
    | _ => none
  | s => do
    let (name, rest) ← parameterName? s
    some (.parameter (String.ofList name) .none quoted, rest)

/-- The pieces between double quotes, after the first of them.  `fuel` bounds the characters. -/
def quotedPieces? : (fuel : Nat) → List Char → Option (List Piece × List Char)
  | 0, _ => none
  | fuel + 1, s =>
    let char (c : Char) (s : List Char) :=
      (quotedPieces? fuel s).map fun (ps, rest) => (Piece.quoted [c] :: ps, rest)
    match s with
    | [] => none
    | '"' :: s => some ([], s)
    | '\\' :: '\n' :: s => quotedPieces? fuel s
    | '\\' :: c :: s =>
      if c = '$' || c = '"' || c = '\\' || c.toNat = 0x60 then char c s
      else (quotedPieces? fuel (c :: s)).map fun (ps, rest) => (.quoted ['\\'] :: ps, rest)
    | '$' :: s =>
      match dollar? true s with
      | some (p, s) => (quotedPieces? fuel s).map fun (ps, rest) => (p :: ps, rest)
      | none => char '$' s
    | c :: s => char c s

/-- The pieces of a word.  `fuel` bounds the characters. -/
def wordPieces? : (fuel : Nat) → List Char → Option (List Piece × List Char)
  | 0, _ => none
  | fuel + 1, s =>
    match s with
    | [] => some ([], [])
    | '\'' :: s =>
      let inside := s.takeWhile (· ≠ '\'')
      match s.dropWhile (· ≠ '\'') with
      | _ :: s => (wordPieces? fuel s).map fun (ps, rest) => (.quoted inside :: ps, rest)
      | [] => none
    | '"' :: s => do
      let (inside, s) ← quotedPieces? (s.length + 1) s
      let (ps, rest) ← wordPieces? fuel s
      some (.quoted [] :: inside ++ ps, rest)
    | '\\' :: '\n' :: s => wordPieces? fuel s
    | '\\' :: c :: s => (wordPieces? fuel s).map fun (ps, rest) => (.quoted [c] :: ps, rest)
    | '$' :: s =>
      match dollar? false s with
      | some (p, s) => (wordPieces? fuel s).map fun (ps, rest) => (p :: ps, rest)
      | none => (wordPieces? fuel s).map fun (ps, rest) => (.plain ['$'] :: ps, rest)
    | c :: s =>
      if endsWord c then some ([], c :: s)
      else (wordPieces? fuel s).map fun (ps, rest) => (.plain [c] :: ps, rest)

/-- Neighbouring pieces of one sort joined. -/
def joinPieces : List Piece → List Piece
  | .plain a :: ps =>
    match joinPieces ps with
    | .plain b :: ps => .plain (a ++ b) :: ps
    | ps => .plain a :: ps
  | .quoted a :: ps =>
    match joinPieces ps with
    | .quoted b :: ps => .quoted (a ++ b) :: ps
    | ps => .quoted a :: ps
  | p :: ps => p :: joinPieces ps
  | [] => []

/-- The tokens of a text, from a line on.  `fuel` bounds their number. -/
def tokens? : (fuel : Nat) → (line : Nat) → List Char → Option (List Token)
  | 0, _, _ => none
  | fuel + 1, line, s =>
    let op (kind : TokenKind) (s : List Char) :=
      (tokens? fuel line s).map fun ts => Token.mk kind line :: ts
    match s with
    | [] => some []
    | ' ' :: s => tokens? fuel line s
    | '\t' :: s => tokens? fuel line s
    | '\\' :: '\n' :: s => tokens? fuel (line + 1) s
    | '\n' :: s => (tokens? fuel (line + 1) s).map fun ts => ⟨.newline, line⟩ :: ts
    | '#' :: s => tokens? fuel line (s.dropWhile (· ≠ '\n'))
    | ';' :: ';' :: s => op .doubleSemicolon s
    | ';' :: s => op .semicolon s
    | '&' :: '&' :: s => op .andAnd s
    | '|' :: '|' :: s => op .orOr s
    | '|' :: s => op .bar s
    | '(' :: s => op .openParen s
    | ')' :: s => op .closeParen s
    | '>' :: '>' :: s => op (.toFile 1 true) s
    | '>' :: '&' :: s => op (.toStream 1) s
    | '>' :: s => op (.toFile 1 false) s
    | c :: '>' :: '>' :: s =>
      if c.isDigit then op (.toFile (c.toNat - '0'.toNat) true) s else word fuel line (c :: '>' :: '>' :: s)
    | c :: '>' :: '&' :: s =>
      if c.isDigit then op (.toStream (c.toNat - '0'.toNat)) s else word fuel line (c :: '>' :: '&' :: s)
    | c :: '>' :: s =>
      if c.isDigit then op (.toFile (c.toNat - '0'.toNat) false) s else word fuel line (c :: '>' :: s)
    | s => word fuel line s
where
  word (fuel line : Nat) (s : List Char) : Option (List Token) :=
    match wordPieces? (s.length + 1) s with
    | some (p :: ps, rest) =>
      let taken := s.take (s.length - rest.length)
      (tokens? fuel (line + taken.count '\n') rest).map fun ts =>
        ⟨.word (joinPieces (p :: ps)), line⟩ :: ts
    | _ => none

end LintHooks.Shell
