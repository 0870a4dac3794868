set_option autoImplicit false

/-!
# Shell: commands

Tools may be shell scripts.  Here stand the words and commands of the part of the
shell language that such scripts are written in.
-/

namespace LintHooks.Shell

/-- Which part of a value goes when a pattern is cut off. -/
inductive Cut where
  | shortestFront | longestFront | shortestBack | longestBack
  deriving DecidableEq, Repr, Inhabited

/-- What happens to the value of a parameter. -/
inductive Change where
  | none
  | cut (c : Cut) (pattern : List Char)
  /-- The number of characters stands for the value. -/
  | size
  /-- Another text stands in for an empty value. -/
  | orElse (text : List Char)
  /-- Another text stands in for a missing value. -/
  | ifMissing (text : List Char)
  /-- Another text stands for any value that is not empty. -/
  | ifFilled (text : List Char)
  /-- Another text stands for any value. -/
  | ifSet (text : List Char)
  deriving DecidableEq, Repr, Inhabited

/-- A piece of a word. -/
inductive Piece where
  | plain (s : List Char)
  | quoted (s : List Char)
  | parameter (name : String) (change : Change) (quoted : Bool)
  | arithmetic (text : List Char) (quoted : Bool)
  deriving DecidableEq, Repr, Inhabited

/-- A word before it is expanded. -/
abbrev Word : Type := List Piece

/-- Where a stream is sent. -/
inductive Target where
  /-- A file, which is emptied first unless it is added to. -/
  | file (path : Word) (add : Bool)
  /-- Where another stream goes. -/
  | stream (number : Nat)
  deriving DecidableEq, Repr, Inhabited

/-- Sends a stream elsewhere. -/
structure Redirect where
  stream : Nat
  target : Target
  line : Nat
  deriving DecidableEq, Repr, Inhabited

/-- A command. -/
inductive Command where
  | simple (line : Nat) (assignments : List (String × Word)) (words : List Word)
  | redirected (c : Command) (rs : List Redirect)
  | andThen (a b : Command)
  /-- The second command runs only after success of the first. -/
  | ifOk (a b : Command)
  /-- The second command runs only after failure of the first. -/
  | ifNot (a b : Command)
  | negated (c : Command)
  | branch (condition yes no : Command)
  /-- A loop that goes on while its condition succeeds, or until it does. -/
  | loop (stopOn : Bool) (condition body : Command)
  /-- A loop over words, or over the arguments. -/
  | each (name : String) (words : Option (List Word)) (body : Command)
  /-- A choice by patterns: the body of the first one that fits, else the rest. -/
  | choose (subject : Word) (patterns : List Word) (body rest : Command)
  | nothing
  deriving Repr, Inhabited

end LintHooks.Shell
