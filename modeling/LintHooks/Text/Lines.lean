import LintHooks.Text.Basic
set_option autoImplicit false

/-!
# Text: lines

Three ways to read a text as lines.  `pieces` keeps every line ending, so the
pieces joined again are the text; `lines` drops the line feed and one carriage
return before it; `diffLines` also ends a line after a carriage return that
stands alone.

The other way round, `wrap` makes lines of limited width.  A word keeps the blanks
that follow it, except that those at the end of a wrapped line go; a word that is
wider than a line stands alone.
-/

namespace LintHooks.Text

/-! ## Cutting into lines -/

/-- The text cut after every line feed.  No piece is empty. -/
def pieces : List Char → List (List Char)
  | [] => []
  | c :: s =>
    if c = '\n' then ['\n'] :: pieces s
    else match pieces s with
      | [] => [[c]]
      | p :: ps => (c :: p) :: ps

theorem flatten_pieces (s : List Char) : (pieces s).flatten = s := by
  induction s with
  | nil => rfl
  | cons c s ih =>
    by_cases h : c = '\n'
    · simp [pieces, h, ih]
    · cases hp : pieces s with
      | nil => simp [pieces, h, hp] at ih ⊢; exact ih
      | cons p ps => simp [pieces, h, hp] at ih ⊢; exact ih

/-- A piece without its line feed and the carriage return before it. -/
def dropEnding (piece : List Char) : List Char :=
  match piece.reverse with
  | '\n' :: '\r' :: r => r.reverse
  | '\n' :: r => r.reverse
  | _ => piece

/-- The lines of a text, without their endings. -/
def lines (s : List Char) : List (List Char) := (pieces s).map dropEnding

/-- The lines of a text, without their endings, as strings. -/
def linesOf (s : String) : List String := (lines s.toList).map String.ofList

/-- The text cut after every line feed, every carriage return that no line feed
follows, and every pair of the two. -/
def diffLines : List Char → List (List Char)
  | [] => []
  | '\r' :: '\n' :: s => ['\r', '\n'] :: diffLines s
  | c :: s =>
    if c = '\n' ∨ c = '\r' then [c] :: diffLines s
    else match diffLines s with
      | [] => [[c]]
      | p :: ps => (c :: p) :: ps

/-! ## Wrapping -/

/-- The words of a line, each with the blanks after it.  Blanks in front of the first word are a
word of their own. -/
def wordsOf : List Char → List (List Char)
  | [] => []
  | c :: s =>
    match wordsOf s with
    | [] => [[c]]
    | w :: ws => if c = ' ' ∧ w.head? ≠ some ' ' then [c] :: w :: ws else (c :: w) :: ws

/-- A word without the blanks after it. -/
def bare (w : List Char) : List Char := (w.reverse.dropWhile (· == ' ')).reverse

/-- Places words on lines.  `used` is the width of the line so far and `line` its words, last
first. -/
def placeWords (width used : Nat) (line : List (List Char)) :
    List (List Char) → List (List (List Char))
  | [] => [line.reverse]
  | w :: ws =>
    if line ≠ [] ∧ width < used + (bare w).length then
      line.reverse :: placeWords width w.length [w] ws
    else placeWords width (used + w.length) (w :: line) ws

/-- A text without line feeds, cut into lines of at most `width` characters. -/
def wrap (width : Nat) (s : String) : List String :=
  let placed := placeWords width 0 [] (wordsOf s.toList)
  let count := placed.length
  placed.zipIdx.map fun (line, i) =>
    let text := line.flatten
    String.ofList (if i + 1 < count then bare text else text)

end LintHooks.Text
