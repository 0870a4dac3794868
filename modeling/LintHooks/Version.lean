import LintHooks.Text.Class
set_option autoImplicit false

/-!
# Versions in the output of tools

A version is one or more groups of digits, each with a point after it, and then
one or more digits, small letters and signs.  A tool prints its version after
some text of its own.
-/

namespace LintHooks.Version

/-- A character of the last part of a version. -/
def isTailChar (c : Char) : Bool :=
  Text.isDigit c || c = '+' || c = '_' || c = '-' || ('a' ≤ c && c ≤ 'z')

/-- The last part of a version at the beginning of a text. -/
def tail? (s : List Char) : Option (List Char) :=
  let t := s.takeWhile isTailChar
  if t = [] then none else some t

/-- The longest version at the beginning of a text.  The last group of digits gives up its point
where nothing follows it. -/
def token? (s : List Char) : Option (List Char) :=
  let digits := s.takeWhile Text.isDigit
  match h : s.dropWhile Text.isDigit with
  | '.' :: more =>
    if digits = [] then none
    else
      have : more.length < s.length := by
        have := (List.dropWhile_sublist (l := s) Text.isDigit).length_le
        simp [h] at this; omega
      ((token? more) <|> tail? more).map fun t => digits ++ '.' :: t
  | _ => none
termination_by s.length

/-- The version after the first place of `lookBehind` that has one after it. -/
def extractFrom (lookBehind : List Char) : List Char → Option (List Char)
  | [] => (Text.after? lookBehind []).bind token?
  | c :: s =>
    match (Text.after? lookBehind (c :: s)).bind token? with
    | some t => some t
    | none => extractFrom lookBehind s

/-- The version that an output holds after a text. -/
def extract? (output lookBehind : String) : Option String :=
  (extractFrom lookBehind.toList output.toList).map String.ofList

end LintHooks.Version
