import LintHooks.Shell.Basic
import LintHooks.Shell.Token
set_option autoImplicit false

/-!
# Shell: expansion

A word becomes texts by putting values for parameters.  A value that is not quoted
falls apart at its blanks.  As a pattern a word stands for texts: a star for any
text, a question mark for any character, anything else for itself.
-/

namespace LintHooks.Shell

/-! ## Patterns -/

/-- A part of a pattern. -/
inductive PatternItem where
  | star
  | one
  | char (c : Char)
  deriving DecidableEq, Repr, Inhabited

/-- The parts of a pattern whose signs have their meaning. -/
def patternOf (s : List Char) : List PatternItem :=
  s.map fun c => if c = '*' then .star else if c = '?' then .one else .char c

/-- Whether a pattern stands for a text. -/
def fits : List PatternItem → List Char → Bool
  | [], s => s.isEmpty
  | .star :: ps, [] => fits ps []
  | .star :: ps, c :: s => fits ps (c :: s) || fits (.star :: ps) s
  | _ :: _, [] => false
  | .one :: ps, _ :: s => fits ps s
  | .char c :: ps, d :: s => c == d && fits ps s
termination_by ps s => ps.length + s.length

/-! ## Parameters -/

/-- What parameters stand for. -/
structure Scope where
  bindings : List (String × String) := []
  /-- The name of the script. -/
  name : String := ""
  args : List String := []
  /-- The exit status of the last command. -/
  status : Nat := 0
  processId : Nat := 1
  deriving Repr, Inhabited

namespace Scope

/-- The value of a parameter; one that is not set is empty. -/
def value (sc : Scope) (name : String) : String :=
  if name = "?" then toString sc.status
  else if name = "$" then toString sc.processId
  else if name = "#" then toString sc.args.length
  else if name = "*" ∨ name = "@" then String.intercalate " " sc.args
  else if name = "0" then sc.name
  else match name.toNat? with
    | some n => (sc.args[n - 1]?).getD ""
    | none => (sc.bindings.lookup name).getD ""

/-- Sets a variable. -/
def setVariable (sc : Scope) (name value : String) : Scope :=
  { sc with bindings := (name, value) :: sc.bindings.filter fun v => v.1 ≠ name }

/-- Takes a variable away. -/
def forget (sc : Scope) (name : String) : Scope :=
  { sc with bindings := sc.bindings.filter fun v => v.1 ≠ name }

/-- Whether a parameter has a value. -/
def isSet (sc : Scope) (name : String) : Bool :=
  match name.toNat? with
  | some n => n ≤ sc.args.length
  | none => (sc.bindings.lookup name).isSome || ["?", "$", "#", "*", "@"].contains name

end Scope

/-! ## Changes -/

/-- The text without what a pattern stands for at one end. -/
def cutOff (cut : Cut) (pattern s : List Char) : List Char :=
  let p := patternOf pattern
  let sizes := List.range (s.length + 1)
  match cut with
  | .shortestFront => ((sizes.find? fun n => fits p (s.take n)).map s.drop).getD s
  | .longestFront => ((sizes.reverse.find? fun n => fits p (s.take n)).map s.drop).getD s
  | .shortestBack =>
    ((sizes.reverse.find? fun n => fits p (s.drop n)).map s.take).getD s
  | .longestBack => ((sizes.find? fun n => fits p (s.drop n)).map s.take).getD s

/-- A value after a change; `isSet` tells whether there is a value at all. -/
def Change.apply (c : Change) (isSet : Bool) (s : List Char) : List Char :=
  match c with
  | .none => s
  | .size => (toString s.length).toList
  | .cut ends pattern => cutOff ends pattern s
  | .orElse text => if s.isEmpty then text else s
  | .ifMissing text => if isSet then s else text
  | .ifFilled text => if s.isEmpty then [] else text
  | .ifSet text => if isSet then text else []

/-! ## Arithmetic -/

/-- The text without the blanks at its beginning. -/
def skipBlanks (s : List Char) : List Char :=
  s.dropWhile fun c => c = ' ' || c = '\t' || c = '\n'

/-- The number that a text denotes; no number counts as zero. -/
def numberOf (s : String) : Int := (s.toInt?).getD 0

mutual

/-- A sum at the beginning of a text.  `fuel` bounds the depth of the reading, here and below. -/
def sum? (sc : Scope) : (fuel : Nat) → List Char → Option (Int × List Char)
  | 0, _ => none
  | fuel + 1, s =>
    match product? sc fuel s with
    | none => none
    | some (n, s) => sumTail? sc fuel n s

/-- The rest of a sum. -/
def sumTail? (sc : Scope) : (fuel : Nat) → Int → List Char → Option (Int × List Char)
  | 0, _, _ => none
  | fuel + 1, n, s =>
    match skipBlanks s with
    | '+' :: s =>
      match product? sc fuel s with
      | none => none
      | some (m, s) => sumTail? sc fuel (n + m) s
    | '-' :: s =>
      match product? sc fuel s with
      | none => none
      | some (m, s) => sumTail? sc fuel (n - m) s
    | s => some (n, s)

/-- A product. -/
def product? (sc : Scope) : (fuel : Nat) → List Char → Option (Int × List Char)
  | 0, _ => none
  | fuel + 1, s =>
    match factor? sc fuel s with
    | none => none
    | some (n, s) => productTail? sc fuel n s

/-- The rest of a product. -/
def productTail? (sc : Scope) : (fuel : Nat) → Int → List Char → Option (Int × List Char)
  | 0, _, _ => none
  | fuel + 1, n, s =>
    match skipBlanks s with
    | '*' :: s =>
      match factor? sc fuel s with
      | none => none
      | some (m, s) => productTail? sc fuel (n * m) s
    | '/' :: s =>
      match factor? sc fuel s with
      | none => none
      | some (m, s) => if m = 0 then none else productTail? sc fuel (n.tdiv m) s
    | '%' :: s =>
      match factor? sc fuel s with
      | none => none
      | some (m, s) => if m = 0 then none else productTail? sc fuel (n.tmod m) s
    | s => some (n, s)

/-- A number, a variable, or a sum in parentheses. -/
def factor? (sc : Scope) : (fuel : Nat) → List Char → Option (Int × List Char)
  | 0, _ => none
  | fuel + 1, s =>
    match skipBlanks s with
    | '-' :: s => (factor? sc fuel s).map fun (n, s) => (-n, s)
    | '+' :: s => factor? sc fuel s
    | '(' :: s =>
      match sum? sc fuel s with
      | some (n, s) =>
        match skipBlanks s with
        | ')' :: s => some (n, s)
        | _ => none
      | none => none
    | '$' :: s =>
      (parameterName? s).map fun (name, s) => (numberOf (sc.value (String.ofList name)), s)
    | c :: s =>
      if c.isDigit then
        some (numberOf (String.ofList ((c :: s).takeWhile Char.isDigit)),
          (c :: s).dropWhile Char.isDigit)
      else if isNameChar c then
        some (numberOf (sc.value (String.ofList ((c :: s).takeWhile isNameChar))),
          (c :: s).dropWhile isNameChar)
      else none
    | [] => none

end

/-- The value of an arithmetic text; one that makes no sense is zero. -/
def arithmetic (sc : Scope) (s : List Char) : Int :=
  match sum? sc (4 * s.length + 8) s with
  | some (n, _) => n
  | none => 0

/-! ## Words -/

/-- The value of a piece that stands for one text. -/
def pieceText (sc : Scope) : Piece → List Char
  | .plain s => s
  | .quoted s => s
  | .parameter name change _ => change.apply (sc.isSet name) (sc.value name).toList
  | .arithmetic t _ => (toString (arithmetic sc t)).toList

/-- A word as one text. -/
def wordText (sc : Scope) (w : Word) : String := String.ofList (w.flatMap (pieceText sc))

/-- A word as a pattern: what is quoted stands for itself. -/
def wordPattern (sc : Scope) (w : Word) : List PatternItem :=
  w.flatMap fun p =>
    match p with
    | .plain s => patternOf s
    | .quoted s => s.map .char
    | .parameter _ _ quoted | .arithmetic _ quoted =>
      let s := pieceText sc p
      if quoted then s.map .char else patternOf s

/-- Texts under construction: the last one may still grow. -/
structure Fields where
  closed : List (List Char) := []
  open_ : Option (List Char) := none

namespace Fields

/-- More text at the end. -/
def grow (f : Fields) (s : List Char) : Fields := { f with open_ := some (f.open_.getD [] ++ s) }

/-- No more text for the last one. -/
def close (f : Fields) : Fields :=
  match f.open_ with
  | some s => { closed := s :: f.closed, open_ := none }
  | none => f

/-- More text that falls apart at its blanks. -/
def split (f : Fields) (s : List Char) : Fields :=
  s.foldl (fun f c => if c = ' ' || c = '\t' || c = '\n' then f.close else f.grow [c]) f

/-- Several texts, the first at the end of the last one so far. -/
def spread (f : Fields) : List String → Fields
  | [] => f
  | [a] => f.grow a.toList
  | a :: more => spread (f.grow a.toList).close more

/-- All texts. -/
def toList (f : Fields) : List String := (f.close.closed.reverse).map String.ofList

end Fields

/-- Whether a word consists of the list of arguments alone. -/
def isArguments : Word → Bool
  | [.quoted [], .parameter "@" .none true] => true
  | _ => false

/-- The texts of a word. -/
def wordFields (sc : Scope) (w : Word) : List String :=
  if isArguments w then sc.args
  else
    let fields := w.foldl (fun f p =>
      match p with
      | .plain s => f.grow s
      | .quoted s => f.grow s
      | .parameter "@" .none true => f.spread sc.args
      | .parameter _ _ quoted | .arithmetic _ quoted =>
        let s := pieceText sc p
        if quoted then f.grow s else f.split s) ({} : Fields)
    fields.toList

end LintHooks.Shell
