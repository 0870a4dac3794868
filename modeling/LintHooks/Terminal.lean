import LintHooks.Host.Basic
set_option autoImplicit false

/-!
# Messages for the user

Messages go to standard error: a hook leaves its standard output to the tool.
-/

namespace LintHooks.Terminal

/-- The colors of headings. -/
inductive Color where
  | red | yellow | blue
  deriving DecidableEq, Repr

def Color.code : Color → String
  | .red => "31"
  | .yellow => "33"
  | .blue => "34"

/-- A heading, bold and colored where colors are on. -/
def heading (colored : Bool) (c : Color) (s : String) : String :=
  if colored then "\x1b[" ++ c.code ++ "m\x1b[1m" ++ s ++ "\x1b[0m" else s

/-- One line of text after a heading. -/
def message (c : Color) (title text : String) : Action Unit := do
  let h ← Action.host
  Action.printError (heading h.colored c title ++ ": " ++ text ++ "\n")

def error (text : String) : Action Unit := message .red "error" text

def warning (text : String) : Action Unit := message .yellow "warning" text

def info (text : String) : Action Unit := message .blue "info" text

/-- A heading on a line of its own over a text, which ends with a line feed in any case. -/
def block (title body : String) : Action Unit := do
  let h ← Action.host
  let ending := if body.toList.getLast? = some '\n' then "" else "\n"
  Action.printError (heading h.colored .red title ++ "\n" ++ body ++ ending)

/-- The whole text of a report. -/
def reportText (colored : Bool) (r : Report) : String :=
  let needed := match r.requiredFor? with
    | some what => "  required for: " ++ what ++ "\n"
    | none => ""
  let hint := match r.hint? with
    | some hint => "\n" ++ heading colored .yellow "HINT:" ++ " " ++ hint ++ "\n"
    | none => ""
  "\n" ++ heading colored .red "ERROR:" ++ " " ++ r.message ++ "\n" ++ needed ++ hint ++ "\n"

/-- Shows a report with its hint. -/
def report (r : Report) : Action Unit := do
  let h ← Action.host
  Action.printError (reportText h.colored r)

end LintHooks.Terminal
