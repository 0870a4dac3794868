import LintHooks.Host.Basic
import LintHooks.Settings.Layer
set_option autoImplicit false

/-!
# Settings: loading all layers

The layers of files, lowest first: a table of `pyproject.toml`, the root of
`cmake_pc_hooks.toml`, and the root of a file named on the command line.  The first
two may be missing.
-/

namespace LintHooks

/-- The table of `pyproject.toml` that holds settings. -/
def projectSection : String := "tool.cmake_pc_hooks"

/-- A file that holds a layer. -/
structure LayerFile where
  path : String
  part : Section
  /-- Whether it is an error that the file is missing. -/
  mandatory : Bool
  deriving DecidableEq, Repr, Inhabited

/-- The files of a run in a directory, lowest first. -/
def LayerFile.all (dir : String) (config : Option String) : List LayerFile :=
  [⟨Path.join dir "pyproject.toml", .table projectSection, false⟩,
   ⟨Path.join dir "cmake_pc_hooks.toml", .root, false⟩]
    ++ config.toList.map fun p => ⟨Path.join dir p, .root, true⟩

namespace Settings

/-- The layer in a section of a text that comes from `origin`. -/
def read (content : String) (part : Section) (origin : String) : Action (Option Settings) := do
  let result := ofToml? content part
  match result with
  | .error .malformed => pure ()
  | .ok none =>
    let path := match part with
      | .table path => path
      | .root => ""
    Action.debug .settings (origin ++ " does not have a [" ++ path ++ "] table (not an error)")
  | _ => Action.debug .settings ("loading hook settings from " ++ origin)
  match result with
  | .ok layer => pure layer
  | .error e => Action.report (e.report origin)

/-- The layer in a file, if the file is there. -/
def load (file : LayerFile) : Action (Option Settings) := do
  let h ← Action.host
  if h.isFile file.path then
    match h.readText file.path with
    | .ok content => read content file.part file.path
    | .error e => Action.fail (.readingConfig file.path e)
  else if file.mandatory then
    Action.report (.config ("Unable to locate TOML file " ++ file.path) none)
  else
    Action.debug .settings ("TOML file " ++ file.path ++ " does not exist (not an error)")
    pure none

/-- The settings of all files under those of the command line. -/
def loadLayered (config : Option String) (cli : Settings) : Action Settings := do
  let h ← Action.host
  let layers ← (LayerFile.all h.workPath config).mapM load
  pure (merge (layers.filterMap id) cli)

end Settings

end LintHooks
