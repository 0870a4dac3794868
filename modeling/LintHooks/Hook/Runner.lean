import LintHooks.CMake.Project
import LintHooks.Hook.Targets
import LintHooks.Hook.Verdict
import LintHooks.Options.Invocation
import LintHooks.Settings.Check
import LintHooks.Tool.Lookup
set_option autoImplicit false

/-!
# Hooks: running the tool

A runner holds all that a hook needs to run its tool: where the tool is, its
arguments, the target files and the project.  It also keeps the output of every
run, as the tool has left it.
-/

namespace LintHooks

/-- A hook that is ready to run its tool. -/
structure Runner where
  /-- The path of the tool. -/
  tool : String
  toolArgs : List String
  files : List String
  /-- What goes to the tool behind a separator. -/
  ddash : List String
  settings : Settings
  project : CMake.Project
  /-- The outputs of all runs so far. -/
  history : List ProcessOutput := []
  deriving Inhabited

namespace Runner

/-! ## Getting ready -/

/-- What a tool is needed for. -/
def purpose (hook : Hook) : String := "the " ++ hook.commandName ++ " hook"

/-- The program to be asked for the version of the tool at a path. -/
def versionTool (hook : Hook) (tool : String) : Action String :=
  if hook.versionExecutables = hook.executables then pure tool
  else Tool.require hook.versionExecutables (purpose hook) hook.installHint

/-- Checks that the tool has a version that begins with the expected one. -/
def checkVersion (hook : Hook) (tool expected : String) : Action Unit := do
  let expected := Text.withoutQuotes expected
  let found ← Tool.version (← versionTool hook tool) hook.lookBehind
  if expected.toList.isPrefixOf found.toList then
    Action.debug .hooks (hook.name ++ " version " ++ found ++ " matches " ++ expected)
  else Action.report (.versionMismatch hook.name expected found)

/-- Finds the tool and the project, and sorts out the target files. -/
def ofInvocation (hook : Hook) (i : Invocation) (s : Settings) : Action Runner := do
  let tool ← Tool.require hook.executables (purpose hook) hook.installHint
  Action.debug .hooks ("using " ++ hook.name ++ " at " ++ tool)
  match s.texts .version with
  | some expected => checkVersion hook tool expected
  | none => pure ()
  s.check
  let project ← CMake.Project.ofSettings s
  let args := hook.fileArgs (← Action.host).isFile i.files i.ddash
  (args.candidates.filter fun file => !hook.handles file).forM fun file =>
    Action.debug .hooks ("skipping " ++ file ++ " (not handled by " ++ hook.name ++ ")")
  pure
    { tool, project
      settings := s
      toolArgs := Hook.completeArgs i.toolArgs (hook.defaultArgs project.buildDir)
      files := hook.targets args.candidates
      ddash := args.ddash }

/-- Something the project of a runner does. -/
def onProject {α : Type} (t : ActionOn CMake.Project α) : ActionOn Runner α :=
  t.within project fun p r => { r with project := p }

/-- Whether more files may be found than the command line names. -/
def mayFindFiles (r : Runner) : Bool :=
  r.settings.flag .readJsonDb || r.settings.flag .detectConfiguredFiles

/-- The files in the database of the project. -/
def databaseFiles (r : Runner) : Action (List String) :=
  match r.project.database with
  | some path => CompileDatabase.sourceFiles path
  | none => pure []

/-- Has the project configured if need be, and takes in the files that CMake knows of: those of
the database first, then the ones it has generated. -/
def prepare (hook : Hook) : ActionOn Runner Unit := do
  let r ← get
  if r.files.isEmpty && !r.mayFindFiles then Action.debug .hooks "no files to process"
  else
    if hook.needsDatabase || r.settings.flag .readJsonDb then
      onProject (CMake.Project.configure hook.commandName)
    if r.settings.flag .readJsonDb then
      let found ← databaseFiles (← get)
      modify fun r => { r with files := Hook.addFiles r.files found }
    modify fun r => { r with files := Hook.addFiles r.files r.project.configuredFiles }

/-! ## Running -/

/-- Runs the tool once and keeps its output. -/
def execute (args : List String) : ActionOn Runner ProcessOutput := do
  let r ← get
  let o ← Launch.run ⟨r.tool, args, none⟩
  set { r with history := r.history ++ [o] }
  pure o

/-- The groups of files that the tool is run on: all at once, or one by one. -/
def batches (r : Runner) : List (List String) :=
  if r.files.isEmpty then []
  else if r.settings.flag .allAtOnce then [r.files]
  else r.files.map fun file => [file]

/-- The arguments of the run on some files. -/
def argsFor (hook : Hook) (r : Runner) (files : List String) : List String :=
  hook.commandLine r.toolArgs files r.ddash

/-- Runs the tool on one group of files after the other and gives the outputs of the runs that
have found something. -/
def runBatches (hook : Hook) : List (List String) → ActionOn Runner (List ProcessOutput)
  | [] => pure []
  | batch :: rest => do
    let o ← execute (argsFor hook (← get) batch)
    let failures ← runBatches hook rest
    pure (if hook.failed o then hook.cleaned o :: failures else failures)

/-- Runs the tool on all files.  The result is whether it has found something. -/
def runTool (hook : Hook) : ActionOn Runner Bool := do
  let r ← get
  if r.files.isEmpty then pure false
  else
    let failures ← runBatches hook r.batches
    hook.report failures
    pure !failures.isEmpty

end Runner

end LintHooks
