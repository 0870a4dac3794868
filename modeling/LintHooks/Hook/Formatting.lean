import LintHooks.Diff.Unified
import LintHooks.Hook.Runner
set_option autoImplicit false

/-!
# Hooks: checking a format

clang-format prints how a file should look.  A file that looks different counts as
a finding; what would change is shown, and the file is formatted in place if the
user has asked for that.
-/

namespace LintHooks

/-- The difference between a file and its formatted text, under the name of the file. -/
def Hook.formatDiff (file text formatted : String) : String :=
  file ++ "\n" ++ Text.repeated 20 "=" ++ "\n"
    ++ Diff.unified "original" "formatted" text formatted ++ "\n"

namespace Formatting

/-- The argument that asks for files to be formatted in place. -/
def inPlace : String := "-i"

/-- How to go about it. -/
structure Mode where
  /-- The arguments for the tool without the one that changes files. -/
  args : List String
  /-- Whether differing files are formatted in place. -/
  changesFiles : Bool
  /-- Whether differences are shown. -/
  showDiff : Bool
  deriving DecidableEq, Repr, Inhabited

/-- How a runner goes about it. -/
def modeOf (r : Runner) : Mode where
  args := r.toolArgs.filter (· ≠ inPlace)
  changesFiles := r.toolArgs.contains inPlace
  showDiff := !r.settings.flag .noDiff

/-- What has been found out. -/
structure Tally where
  failed : Bool := false
  /-- The differences, to be shown at the end. -/
  diffs : String := ""
  deriving DecidableEq, Repr, Inhabited

/-- The text of a file; bytes that are no text are replaced. -/
def readLossy (file : String) : Action String := do
  let h ← Action.host
  match h.files.read h.workDir file with
  | .ok bytes => pure (Text.decodeLossy bytes)
  | .error e => Action.fail (.readingFile file e)

/-- Has the tool format a file in place. -/
def formatInPlace (m : Mode) (file : String) : ActionOn Runner Unit := do
  let o ← Runner.execute (inPlace :: m.args ++ [file])
  if !o.success then o.echo
  Action.debug .format ("reformatted " ++ file)

/-- Checks one file. -/
def checkFile (m : Mode) (t : Tally) (file : String) : ActionOn Runner Tally := do
  let text ← readLossy file
  let o ← Runner.execute (m.args ++ [file])
  if !o.success then
    o.echo
    pure { t with failed := true }
  else if o.stdout = text then pure t
  else
    let diff := if m.showDiff then Hook.formatDiff file text o.stdout else ""
    if m.changesFiles then formatInPlace m file
    pure ⟨true, t.diffs ++ diff⟩

/-- Checks one file after the other. -/
def checkFiles (m : Mode) : Tally → List String → ActionOn Runner Tally
  | t, [] => pure t
  | t, file :: rest => do checkFiles m (← checkFile m t file) rest

/-- Checks all files.  The result is whether one of them looks different. -/
def run : ActionOn Runner Bool := do
  let r ← get
  let t ← checkFiles (modeOf r) {} r.files
  Action.print t.diffs
  pure t.failed

end Formatting

end LintHooks
