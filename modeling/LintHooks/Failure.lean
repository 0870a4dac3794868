import LintHooks.FileSystem.Basic
set_option autoImplicit false

/-!
# Failures

Everything that can end a run of a hook early, by cause.  The failures that a
user can mend are reports with a hint; the others show what was being done and
what the operating system or a reader said about it.
-/

namespace LintHooks

/-! ## Hints -/

namespace Hint

def cmake : String :=
  "Install CMake from https://cmake.org/ or use your package manager:\n" ++
  "• macOS: brew install cmake\n" ++
  "• Ubuntu: sudo apt install cmake\n" ++
  "• pip: pip install cmake\n" ++
  "Or point the hook at an executable with --cmake=/path/to/cmake"

def clangTools : String :=
  "Install the LLVM/Clang tools:\n" ++
  "• macOS: brew install llvm\n" ++
  "• Ubuntu: sudo apt install clang-format clang-tidy\n" ++
  "• pip: pip install clang-format clang-tidy"

def cppcheck : String :=
  "Install cppcheck:\n" ++
  "• macOS: brew install cppcheck\n" ++
  "• Ubuntu: sudo apt install cppcheck"

def cpplint : String := "Install cpplint with: pip install cpplint"

def includeWhatYouUse : String :=
  "Install include-what-you-use (which ships iwyu_tool.py):\n" ++
  "• macOS: brew install include-what-you-use\n" ++
  "• Ubuntu: sudo apt install iwyu"

def lizard : String := "Install lizard with: pip install lizard"

def invalidToml : String :=
  "Check the [tool.cmake_pc_hooks] table of pyproject.toml, cmake_pc_hooks.toml\n" ++
  "and any file passed with --config. Keys use underscores (e.g. build_dir)\n" ++
  "and must match the hook command-line options.\n" ++
  "Run the hook with --dump-toml to see the currently active settings."

def configure : String :=
  "CMake could not configure the project. Try:\n" ++
  "• Running the same CMake command manually to see the full error\n" ++
  "• Passing --clean to start from an empty build directory\n" ++
  "• Pointing the hook to an existing build directory with -B"

def versionMismatch : String :=
  "Install the requested version of the tool or update the --version\n" ++
  "argument in your .pre-commit-config.yaml"

def presetName : String :=
  "pass --preset as a CMake argument naming one of the configure presets of\n" ++
  "CMakePresets.json or CMakeUserPresets.json (e.g. --preset=default)"

def sourceDir : String :=
  "use -S/--source-dir to point to the directory containing the top-level CMakeLists.txt"

/-- The hints of the tools and of the kinds of reports. -/
def all : List String :=
  [cmake, clangTools, cppcheck, cpplint, includeWhatYouUse, lizard, invalidToml, configure,
   versionMismatch]

end Hint

/-! ## Reports -/

/-- A problem that the user can mend. -/
inductive Report where
  | config (message : String) (hint : Option String)
  | invalidArgument (message : String) (hint : Option String)
  | missingTool (tool requiredFor hint : String)
  | configureFailed (message : String) (exitCode : Int) (hint : Option String)
  | versionMismatch (tool expected found : String)
  deriving DecidableEq, Repr, Inhabited

namespace Report

/-- The failure of a CMake run with an exit code. -/
def ofConfigure (message : String) (exitCode : Int) : Report :=
  .configureFailed message exitCode (some Hint.configure)

/-- What is wrong. -/
def message : Report → String
  | .config m _ => "Configuration error: " ++ m
  | .invalidArgument m _ => "Invalid argument: " ++ m
  | .missingTool tool _ _ => "Missing tool: " ++ tool
  | .configureFailed m _ _ => "CMake configure step failed: " ++ m
  | .versionMismatch tool expected found =>
    "Version mismatch for " ++ tool ++ ": expected " ++ expected ++ ", found " ++ found

/-- The exit code that belongs to a report: that of CMake unless it is zero, two for what the
user wrote, one for the rest. -/
def exitCode : Report → Int
  | .configureFailed _ code _ => if code ≠ 0 then code else 1
  | .invalidArgument _ _ => 2
  | .config _ _ => 2
  | .missingTool _ _ _ => 1
  | .versionMismatch _ _ _ => 1

/-- What the missing tool is needed for. -/
def requiredFor? : Report → Option String
  | .missingTool _ requiredFor _ => some requiredFor
  | _ => none

/-- How the problem can be mended. -/
def hint? : Report → Option String
  | .config _ hint => hint
  | .invalidArgument _ hint => hint
  | .missingTool _ _ hint => some hint
  | .configureFailed _ _ hint => hint
  | .versionMismatch _ _ _ => some Hint.versionMismatch

end Report

/-! ## All failures -/

/-- Why a run ended early. -/
inductive Failure where
  | report (r : Report)
  | executing (program : String) (cause : OsError)
  | runningVersion (tool : String) (cause : OsError)
  | noVersion (tool : String)
  | openingLock (path : String) (cause : OsError)
  /-- A lock that was to be waited for can never be had. -/
  | waitingForLock (path : String)
  | creatingBuildDir (dir : String) (cause : OsError)
  | readingBuildDir (dir : String) (cause : OsError)
  | removing (path : String) (cause : OsError)
  | readingTraceLog (path : String) (cause : OsError)
  | readingFile (path : String) (cause : OsError)
  | readingConfig (path : String) (cause : OsError)
  /-- A compilation database is none; `reason` is what its reader said. -/
  | parsingDatabase (path reason : String)
  | invalidCMakePath (path : String)
  | invalidDirectory (path : String)
  | invalidBuildDir (path : String)
  | noBuildDir
  | emptyCommand
  deriving DecidableEq, Repr, Inhabited

namespace Failure

/-- What failed. -/
def message : Failure → String
  | .report r => r.message
  | .executing program _ => "Failed to execute " ++ program
  | .runningVersion tool _ => "Failed to run " ++ tool ++ " --version"
  | .noVersion tool => "Unable to find a version string in the output of " ++ tool ++ " --version"
  | .openingLock path _ => "Failed to open lock file " ++ path
  | .waitingForLock path => "Failed to wait on " ++ path
  | .creatingBuildDir dir _ => "Failed to create build directory " ++ dir
  | .readingBuildDir dir _ => "Failed to read build directory " ++ dir
  | .removing path _ => "Failed to remove " ++ path
  | .readingTraceLog path _ => "Failed to read CMake trace log " ++ path
  | .readingFile path _ => "Failed to read " ++ path
  | .readingConfig path _ => "Failed to read configuration from " ++ path
  | .parsingDatabase path _ => "Failed to parse " ++ path
  | .invalidCMakePath path => "Invalid CMake path " ++ path
  | .invalidDirectory path => "Invalid directory " ++ path
  | .invalidBuildDir path => "Invalid build directory " ++ path
  | .noBuildDir => "No build directory was selected for CMake"
  | .emptyCommand => "Empty CMake command line"

/-- What lies behind a failure, from the outside in. -/
def causes : Failure → List String
  | .executing _ e | .runningVersion _ e | .openingLock _ e | .creatingBuildDir _ e
  | .readingBuildDir _ e | .removing _ e | .readingTraceLog _ e | .readingFile _ e
  | .readingConfig _ e => [e.message]
  | .parsingDatabase _ reason => ["Invalid compilation database", reason]
  | .invalidCMakePath _ | .invalidDirectory _ | .invalidBuildDir _ => [OsError.emptyPath.message]
  | .report _ | .noVersion _ | .waitingForLock _ | .noBuildDir | .emptyCommand => []

/-- What failed and why, in one line. -/
def chain (f : Failure) : String := String.intercalate ": " (f.message :: f.causes)

end Failure

end LintHooks
