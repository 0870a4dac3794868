import LintHooks.Options.Basic
import LintHooks.Options.Styled
import LintHooks.Text.Lines
set_option autoImplicit false

/-!
# Options: the help text

The help lists the options by group.  Within a group the summaries begin in one
column, two blanks after the widest option, and are wrapped at the right margin.
-/

namespace LintHooks.Help

/-- The right margin. -/
def margin : Nat := 100

/-- The groups of the help with their titles, in order. -/
def groups : List (OptGroup × String) :=
  [(.general, "Options"), (.hook, "Hook options"), (.cmake, "CMake options"),
   (.platform, "Platform options")]

/-- The spellings of an option as the help lists them: the letters form a column of their own. -/
def spellings (o : Opt) : List Part :=
  let letter := match o.short? with
    | some c => [.literal ("-" ++ String.singleton c)]
    | none => [.plain "    "]
  let name := match o.short?, o.long? with
    | some _, some name => [.plain ", ", .literal ("--" ++ name)]
    | none, some name => [.literal ("--" ++ name)]
    | _, none => []
  let value := match o.valueName? with
    | some v => [.plain (" <" ++ v ++ ">")]
    | none => []
  letter ++ name ++ value

/-- What stands after the summary: the variable with its current value, and the choices. -/
def notes (o : Opt) (env : String → Option String) : List String :=
  let current := match o.envName? with
    | some name => ["[env: " ++ name ++ "=" ++ (env name).getD "" ++ "]"]
    | none => []
  let choices :=
    if o.choices.isEmpty then []
    else ["[possible values: " ++ String.intercalate ", " o.choices ++ "]"]
  current ++ choices

/-- The summary of an option with its notes. -/
def description (o : Opt) (env : String → Option String) : String :=
  String.intercalate " " (o.summary :: notes o env)

/-- The column in which the summaries of a group begin. -/
def column (opts : List Opt) : Nat := (opts.map fun o => o.label.length).foldl max 0 + 8

/-- A text filled up with blanks to a width. -/
def padTo (col : Nat) (ps : List Part) : List Part :=
  ps ++ [.plain (Text.repeated (col - Part.width ps) " ")]

/-- The lines that describe an option. -/
def optionLines (col : Nat) (env : String → Option String) (o : Opt) : List (List Part) :=
  let text := ((description o env).toList.splitOn '\n').map String.ofList
  let rows := text.flatMap (Text.wrap (margin - col))
  rows.zipIdx.map fun (row, i) =>
    padTo col (if i = 0 then .plain "  " :: spellings o else []) ++ [.plain row]

/-- The lines of one group. -/
def groupLines (env : String → Option String) (g : OptGroup × String) : List (List Part) :=
  let opts := Opt.all.filter fun o => o.group = g.1
  [.heading (g.2 ++ ":")] :: opts.flatMap (optionLines (column opts) env)

/-- The closing remark. -/
def closing : String :=
  "Options not listed here are passed on to the wrapped tool, as is everything after `--`."

/-- The lines of the help of the hook `command`, which wraps `tool`. -/
def lines (command tool : String) (env : String → Option String) : List (List Part) :=
  [[.plain ("pre-commit hook wrapping " ++ tool)], [],
   [.heading "Usage:", .plain " ", .literal command, .plain " [OPTIONS]"], []]
    ++ groups.flatMap (fun g => groupLines env g ++ [[]])
    ++ [[.plain closing]]

/-- The help, in parts. -/
def parts (command tool : String) (env : String → Option String) : List Part :=
  (lines command tool env).flatMap fun line => line ++ [.plain "\n"]

/-- The help without colors. -/
def text (command tool : String) (env : String → Option String) : String :=
  Part.renderAll false (parts command tool env)

end LintHooks.Help
