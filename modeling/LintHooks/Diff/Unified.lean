import LintHooks.Diff.Compact
import LintHooks.Text.Lines
set_option autoImplicit false

/-!
# Diffs: unified text

A diff for people: the changes in hunks, each with up to three kept lines around
it, under a heading that says where it stands.
-/

namespace LintHooks.Diff

/-! ## Changes -/

/-- What stands between two runs of kept lines, or such a run. -/
inductive Change where
  | keep (old new count : Nat)
  /-- Some lines go and others come; one of the counts may be zero. -/
  | replace (old oldCount new newCount : Nat)
  deriving DecidableEq, Repr, Inhabited

namespace Change

/-- The first old line after a change. -/
def oldStop : Change → Nat
  | .keep old _ count => old + count
  | .replace old oldCount _ _ => old + oldCount

/-- The first new line after a change. -/
def newStop : Change → Nat
  | .keep _ new count => new + count
  | .replace _ _ new newCount => new + newCount

/-- The first old line of a change. -/
def oldStart : Change → Nat
  | .keep old _ _ => old
  | .replace old _ _ _ => old

/-- The first new line of a change. -/
def newStart : Change → Nat
  | .keep _ new _ => new
  | .replace _ _ new _ => new

end Change

/-- The removals and additions since the last kept line. -/
structure Pending where
  removed : Option Edit := none
  added : Option Edit := none
  deriving Repr, Inhabited

namespace Pending

/-- More lines of the kind of a step, at its end. -/
def extend (e : Option Edit) (more : Edit) : Edit :=
  match e with
  | some e => { e with count := e.count + more.count }
  | none => more

/-- The change that removals and additions make together. -/
def change (p : Pending) : List Change :=
  match p.removed, p.added with
  | some r, some a => [.replace r.old r.count a.new a.count]
  | some r, none => [.replace r.old r.count r.new 0]
  | none, some a => [.replace a.old 0 a.new a.count]
  | none, none => []

end Pending

/-- The changes of a script, after what is pending. -/
def changesFrom (p : Pending) : List Edit → List Change
  | [] => p.change
  | e :: es =>
    match e.kind with
    | .remove => changesFrom { p with removed := some (Pending.extend p.removed e) } es
    | .add => changesFrom { p with added := some (Pending.extend p.added e) } es
    | .keep =>
      p.change ++ match changesFrom {} es with
        | .keep _ _ count :: rest => .keep e.old e.new (e.count + count) :: rest
        | rest => .keep e.old e.new e.count :: rest

/-- The changes of a script: runs of kept lines with one change between them. -/
def changes (es : List Edit) : List Change := changesFrom {} es

/-! ## Hunks -/

/-- How many kept lines stand around a change. -/
def context : Nat := 3

/-- The end of a run of kept lines. -/
def lastOf (old new count : Nat) : Change :=
  let skipped := count - context
  .keep (old + skipped) (new + skipped) (count - skipped)

/-- Changes whose first run of kept lines is cut to its end. -/
def trimFirst : List Change → List Change
  | .keep old new count :: rest => lastOf old new count :: rest
  | cs => cs

/-- Changes whose last run of kept lines is cut to its beginning. -/
def trimLast (cs : List Change) : List Change :=
  match cs.reverse with
  | .keep old new count :: rest => (.keep old new (min count context) :: rest).reverse
  | _ => cs

/-- Whether a hunk changes anything. -/
def worthShowing : List Change → Bool
  | [] => false
  | [.keep _ _ _] => false
  | _ => true

/-- Changes cut into hunks at long runs of kept lines. -/
def hunksFrom (hunk : List Change) : List Change → List (List Change)
  | [] => if worthShowing hunk then [hunk] else []
  | .keep old new count :: cs =>
    if 2 * context < count then
      (hunk ++ [.keep old new context]) :: hunksFrom [lastOf old new count] cs
    else hunksFrom (hunk ++ [.keep old new count]) cs
  | c :: cs => hunksFrom (hunk ++ [c]) cs

/-- The hunks of a diff. -/
def hunks (cs : List Change) : List (List Change) := hunksFrom [] (trimLast (trimFirst cs))

/-! ## Text -/

/-- A range of lines: its first line and its length, which goes without saying if it is one.
An empty range stands after the line before it. -/
def rangeText (start stop : Nat) : String :=
  let count := stop - start
  if count = 1 then toString (start + 1)
  else if count = 0 then toString start ++ ",0"
  else toString (start + 1) ++ "," ++ toString count

/-- The heading of a hunk. -/
def hunkHeading (hunk : List Change) : String :=
  match hunk.head?, hunk.getLast? with
  | some first, some last =>
    "@@ -" ++ rangeText first.oldStart last.oldStop ++ " +"
      ++ rangeText first.newStart last.newStop ++ " @@\n"
  | _, _ => ""

/-- A line after the sign for what happens to it.  A line without an ending gets one and a note. -/
def lineText (sign : Char) (line : List Char) : String :=
  let ended := line.getLast? = some '\n' ∨ line.getLast? = some '\r'
  String.ofList (sign :: line) ++ (if ended then "" else "\n\\ No newline at end of file\n")

/-- Some lines after a sign. -/
def linesText (sign : Char) (lines : Array (List Char)) (start count : Nat) : String :=
  String.join ((lines.toList.drop start |>.take count).map (lineText sign))

/-- The lines of a change. -/
def Change.text (old new : Array (List Char)) : Change → String
  | .keep o _ count => linesText ' ' old o count
  | .replace o oldCount n newCount =>
    linesText '-' old o oldCount ++ linesText '+' new n newCount

/-- The text of a hunk. -/
def hunkText (old new : Array (List Char)) (hunk : List Change) : String :=
  hunkHeading hunk ++ String.join (hunk.map (Change.text old new))

/-- The difference of two texts; empty if there is none. -/
def unified (oldName newName : String) (old new : String) : String :=
  let oldLines := (Text.diffLines old.toList).toArray
  let newLines := (Text.diffLines new.toList).toArray
  let found := hunks (changes (compact oldLines newLines (script oldLines newLines)))
  if found = [] then ""
  else
    "--- " ++ oldName ++ "\n+++ " ++ newName ++ "\n"
      ++ String.join (found.map (hunkText oldLines newLines))

end LintHooks.Diff
