import LintHooks.Host.Basic
import LintHooks.Version
set_option autoImplicit false

/-!
# Tools: where they are and which version they have

A tool is known by one or more names and looked for along the search path.  Some
tools are installed into a Python environment instead, as a program or as a script
that its interpreter has to run; there a command counts once it answers when asked
for its version.  The version itself stands in what a tool prints then, on either
stream.
-/

namespace LintHooks.Tool

/-! ## The search path -/

/-- The paths under which the search path offers a name.  A name of several components stands
for one place only. -/
def candidates (h : Host) (name : String) : List String :=
  if 1 < (Path.components name).length then [Path.resolveAgainst h.workPath name]
  else ((h.env "PATH").elim [] Path.searchList).map fun dir => Path.join dir name

/-- Where the program of a given name is. -/
def locate? (h : Host) (name : String) : Option String := (candidates h name).find? h.isExecutable

/-- Where the first of several names is found. -/
def find? (h : Host) (names : List String) : Option String := names.findSome? (locate? h)

/-- Where a tool is that has to be there. -/
def require (names : List String) (requiredFor hint : String) : Action String := do
  match find? (← Action.host) names with
  | some path => pure path
  | none => Action.report (.missingTool (String.intercalate " / " names) requiredFor hint)

/-! ## Commands that answer -/

/-- Asks a command for its version. -/
def askVersion (command : List String) : Action (Except OsError ProcessOutput) :=
  match command with
  | [] => pure (.error .notFound)
  | program :: args => Action.launch ⟨program, args ++ ["--version"], none⟩

/-- Whether a command answers when asked for its version. -/
def answers (command : List String) : Action Bool := do
  match ← askVersion command with
  | .ok o => pure o.success
  | .error _ => pure false

/-- A command that may be the one looked for. -/
structure Trial where
  command : List String
  /-- What the log says if it is. -/
  note : Option String := none
  deriving DecidableEq, Repr, Inhabited

/-- The first command that answers. -/
def firstAnswering : List Trial → Action (Option (List String))
  | [] => pure none
  | t :: rest => do
    if ← answers t.command then
      match t.note with
      | some note => Action.debug .tools note
      | none => pure ()
      pure (some t.command)
    else firstAnswering rest

/-! ## Python environments -/

/-- The interpreter. -/
def python? (h : Host) : Option String := find? h ["python3", "python"]

/-- The root of the environment: the one that is active, else where the interpreter is. -/
def environmentRoot? (h : Host) : Option String :=
  match h.env "VIRTUAL_ENV" with
  | some root => some root
  | none => (python? h).bind Path.parent?

/-- The directories of an environment that hold programs. -/
def environmentDirs (root : String) : List String :=
  [root, Path.join root "bin", Path.join root "Scripts"]

/-- What the environment offers under a name: programs first, then scripts for the interpreter. -/
def environmentTrials (h : Host) (name : String) : List Trial :=
  match environmentRoot? h with
  | none => []
  | some root =>
    let programs := (environmentDirs root).map fun dir =>
      ({ command := [Path.join dir name], note := some ("found " ++ name ++ " in " ++ dir) } : Trial)
    let scripts := match python? h with
      | none => []
      | some python => (environmentDirs root).map fun dir =>
        { command := [python, Path.join dir name]
          note := some ("found " ++ name ++ " in " ++ dir ++ " (through Python)") }
    programs ++ scripts

/-- The command of a given name that the environment has. -/
def findInEnvironment (name : String) : Action (Option (List String)) := do
  firstAnswering (environmentTrials (← Action.host) name)

/-! ## Versions -/

/-- The version of the tool at a path; `lookBehind` is the text in front of it. -/
def version (path lookBehind : String) : Action String := do
  match ← askVersion [path] with
  | .error e => Action.fail (.runningVersion path e)
  | .ok o =>
    match Version.extract? (o.stdout ++ o.stderr) lookBehind with
    | some v => pure v
    | none => Action.fail (.noVersion path)

end LintHooks.Tool
