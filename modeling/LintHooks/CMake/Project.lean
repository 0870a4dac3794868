import LintHooks.CMake.Arguments
import LintHooks.CMake.BuildDir
import LintHooks.CMake.ConfigureLock
import LintHooks.CMake.Trace
import LintHooks.CompileDatabase
import LintHooks.Host.Stateful
import LintHooks.Terminal
import LintHooks.Tool.Lookup
set_option autoImplicit false

/-!
# CMake: projects

A project is what a hook knows about the sources and their build directory, and how
it has CMake configure them.  One hook at a time configures a build directory; the
others wait for it and take what it leaves.
-/

namespace LintHooks.CMake

/-! ## Finding CMake -/

/-- The names under which CMake is looked for. -/
def names : List String := ["cmake", "cmake3"]

/-- What the search path offers under a name. -/
def pathTrials (h : Host) (name : String) : List Tool.Trial :=
  ((Tool.locate? h name).map fun path => ({ command := [path] } : Tool.Trial)).toList

/-- The first of several names whose command answers; for each name the search path comes before
the environment. -/
def findAmong : List String → Action (Option (List String))
  | [] => pure none
  | name :: rest => do
    match ← Tool.firstAnswering (pathTrials (← Action.host) name) with
    | some command => pure (some command)
    | none =>
      match ← Tool.findInEnvironment name with
      | some command => pure (some command)
      | none => findAmong rest

/-- A command that runs CMake. -/
def find : Action (Option (List String)) := findAmong names

/-! ## Projects -/

/-- A project that CMake can configure. -/
structure Project where
  /-- The command that runs CMake, if there is one. -/
  command : Option (List String)
  sourceDir : String
  buildDir : Option String := none
  /-- The arguments of the configure step. -/
  args : List String
  /-- Where CMake is to log what it does. -/
  traceLog : Option String := none
  /-- The files that CMake has generated, as far as they are known. -/
  configuredFiles : List String := []
  noConfigure : Bool
  /-- Whether the build directory is emptied before. -/
  clean : Bool
  deriving Repr, Inhabited

namespace Project

/-- The operating system that settings are meant for. -/
def system : String := "linux"

/-- The name of the log in the build directory. -/
def traceLogName : String := "trace_log.json"

/-- The compilation database of the build directory. -/
def database (p : Project) : Option String := p.buildDir.map CompileDatabase.pathIn

/-- Chooses the build directory. -/
def resolveBuildDir (candidates : List String) (discovery : Bool) : ActionOn Project Unit := do
  let p ← get
  let o : BuildDirChoice.Options := ⟨p.sourceDir, candidates, discovery, p.noConfigure⟩
  match BuildDirChoice.select (← Action.host) o with
  | .error f => throw f
  | .ok choice =>
    Action.tell .cmake choice.level choice.note
    set { p with buildDir := choice.dir? }

/-- The command for CMake that the settings ask for, or the one that is found. -/
def commandOf (s : Settings) : Action (Option (List String)) := do
  match s.texts .cmake with
  | none => find
  | some path =>
    match (← Action.host).absolute? path with
    | some path => pure (some [path])
    | none => Action.fail (.invalidCMakePath path)

/-- The project that settings describe. -/
def ofSettings (s : Settings) : Action Project := do
  let command ← commandOf s
  match normalDir (← Action.host) s.sourceDir with
  | .error f => Action.fail f
  | .ok sourceDir =>
    let p : Project :=
      { command, sourceDir
        args := arguments s system
        noConfigure := s.flag .noCMakeConfigure
        clean := s.flag .clean }
    let (_, p) ← (resolveBuildDir s.buildDirs s.automaticDiscovery).startingFrom p
    pure
      { p with
        traceLog :=
          if s.flag .detectConfiguredFiles then p.buildDir.map (Path.join · traceLogName)
          else none }

/-! ## The configure step -/

/-- What is removed first from the build directory: all but the lock files.  A directory goes
with everything in it, also under the name of a lock file. -/
def removeEntry (lock : ConfigureLock) (path : String) : Action Unit := do
  let h ← Action.host
  let removed :=
    if h.isDirectory path then h.files.removeTree h.workDir path
    else if lock.isLockFile path then .ok h.files
    else h.files.removeFile h.workDir path
  match removed with
  | .ok files => set { h with files }
  | .error e => Action.fail (.removing path e)

/-- Empties a build directory. -/
def cleanBuildDir (dir : String) (lock : ConfigureLock) : Action Unit := do
  Terminal.info ("Cleaning build directory " ++ dir)
  let h ← Action.host
  match h.files.list h.workDir dir with
  | .error e => Action.fail (.readingBuildDir dir e)
  | .ok names => (names.map (Path.join dir)).forM (removeEntry lock)

/-- What is shown of a call of CMake. -/
def banner (program : String) (args : List String) (dir : String) : String :=
  "Running CMake with: " ++ program ++ " " ++ String.intercalate " " args
    ++ "\n  from within " ++ dir ++ "\n"

/-- Calls CMake on the sources from within a directory. -/
def call (p : Project) (dir : String) (extra : List String) : Action ProcessOutput :=
  match p.command with
  | none =>
    Action.report (.missingTool "cmake" "generating the compilation database" Hint.cmake)
  | some [] => Action.fail .emptyCommand
  | some (program :: front) => do
    let args := front ++ p.sourceDir :: p.args
    let o ← Launch.run ⟨program, args ++ extra, some dir⟩
    pure { o with stdout := banner program args dir ++ o.stdout ++ "\n" }

/-- The arguments that have CMake log what it does. -/
def traceArgs (p : Project) : List String :=
  match p.traceLog with
  | some log => ["--trace-expand", "--trace-format=json-v1", "--trace-redirect=" ++ log]
  | none => []

/-- A run that has left no database counts as failed. -/
def demandDatabase (h : Host) (database : String) (o : ProcessOutput) : ProcessOutput :=
  if o.success && !h.pathExists database then
    { o with exitCode := 1, stderr := o.stderr ++ "\nUnable to locate " ++ database ++ "\n\n" }
  else o

/-- Runs CMake in the build directory. -/
def runConfigure (p : Project) (dir : String) (lock : ConfigureLock) : Action ProcessOutput := do
  if p.clean then cleanBuildDir dir lock
  let o ← p.call dir p.traceArgs
  pure (demandDatabase (← Action.host) (CompileDatabase.pathIn dir) o)

/-- What a hook whose role is settled has of CMake: it runs CMake, or has waited for that. -/
def configureAs (p : Project) (dir hookName : String) (role : ConfigureRole) :
    Action ProcessOutput := do
  let lock := ConfigureLock.ofBuildDir dir
  let who := "Command " ++ hookName ++ " with id " ++ toString (← Action.host).processId
  match role with
  | .leader locks =>
    Action.debug .cmake (who ++ " is running CMake configure")
    let result ← (p.runConfigure dir lock).outcome
    lock.retire locks
    Action.debug .cmake (who ++ " is done running CMake configure")
    match result with
    | .ok o => pure o
    | .error f => Action.fail f
  | .follower =>
    Action.debug .cmake (who ++ " did not run CMake configure and is done waiting")
    pure {}

/-- Reads which files CMake has generated. -/
def readConfiguredFiles (log : String) : ActionOn Project Unit := do
  Action.info .cmake "attempting to parse CMake trace log to detect calls to configure_file()"
  modify fun p => { p with configuredFiles := [] }
  let p ← get
  match p.buildDir with
  | none => Action.info .cmake "no trace log provided, aborting."
  | some dir =>
    let o ← p.call dir ["-N", "-LA"]
    if o.success then
      let h ← Action.host
      match h.readText log with
      | .error e => throw (.readingTraceLog log e)
      | .ok content =>
        let cache := CacheVariables.parse o.stdout
        let files ← readTrace content (TraceScope.ofProject p.sourceDir dir cache)
        modify fun p => { p with configuredFiles := files }
    else Action.tell .cmake .error "failed to retrieve CMake cache variables"

/-- Makes the build directory if it is missing. -/
def makeBuildDir (dir : String) : Action Unit := do
  let h ← Action.host
  match h.files.makeDirectories h.workDir dir with
  | .ok files => set { h with files }
  | .error e => Action.fail (.creatingBuildDir dir e)

/-- What is made of the output of CMake. -/
def conclude (p : Project) (o : ProcessOutput) : ActionOn Project Unit := do
  if !o.success then
    o.echo
    throw (.report (.ofConfigure "see output for more information" o.exitCode))
  match p.traceLog with
  | some log => readConfiguredFiles log
  | none => pure ()

/-- The rest of the configure step of a hook whose role is settled. -/
def proceed (p : Project) (dir hookName : String) (role : ConfigureRole) :
    ActionOn Project Unit := do
  let o ← p.configureAs dir hookName role
  p.conclude o

/-- The configure step.  A hook that runs CMake leads; the others wait for it. -/
def configure (hookName : String) : ActionOn Project Unit := do
  let p ← get
  if p.noConfigure then Action.debug .cmake "Not calling CMake configure"
  else
    match p.buildDir with
    | none => throw .noBuildDir
    | some dir =>
      makeBuildDir dir
      let role ← (ConfigureLock.ofBuildDir dir).acquire
      p.proceed dir hookName role

end Project

end LintHooks.CMake
