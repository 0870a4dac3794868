import LintHooks.Settings.Basic
import LintHooks.Terminal
set_option autoImplicit false

/-!
# Settings: checks before anything runs

A preset is named and never given by its file, and the source directory has to be
a directory.  Flags that contradict each other are worth a warning.
-/

namespace LintHooks.Settings

/-- Whether the name of a preset looks like a file. -/
def looksLikeFile (preset : String) : Bool :=
  let s := preset.toList
  s.contains '/' || s.contains '\\' || Text.endsWith ".json".toList s || s.isEmpty

/-- What is wrong with the settings on a host, if anything is. -/
def problem? (s : Settings) (h : Host) : Option Report :=
  let presetProblem := (s.texts .preset).bind fun preset =>
    if looksLikeFile preset then
      some (Report.invalidArgument ("'" ++ preset ++ "' is not a configure preset name")
        (some Hint.presetName))
    else none
  presetProblem <|>
    if h.isDirectory s.sourceDir then none
    else some (.invalidArgument (s.sourceDir ++ " is not a valid source directory")
      (some Hint.sourceDir))

/-- What the settings say twice and differently. -/
def warnings (s : Settings) : List String :=
  (if s.flag .devWarnings && s.flag .noDevWarnings then
    ["both -Wdev and -Wno-dev given; CMake will honor the last one (-Wno-dev)"] else [])
  ++ if s.flag .devErrors && s.flag .noDevErrors then
    ["both -Werror=dev and -Wno-error=dev given; CMake will honor the last one " ++
      "(-Wno-error=dev)"] else []

/-- Checks the settings. -/
def check (s : Settings) : Action Unit := do
  match s.problem? (← Action.host) with
  | some r => Action.report r
  | none => s.warnings.forM Terminal.warning

end LintHooks.Settings
