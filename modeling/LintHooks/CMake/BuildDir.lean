import LintHooks.Host.Basic
set_option autoImplicit false

/-!
# CMake: the build directory

A directory in which CMake has worked holds a cache.  Of the directories that the
user names and those directly inside the source directory the first one with a
cache is used; if there is none, one is made unless CMake must not run.
-/

namespace LintHooks.CMake

/-- The name of the cache. -/
def cacheName : String := "CMakeCache.txt"

/-- The build directory that is made inside the source directory. -/
def defaultBuildDir : String := ".cmake_build"

/-- Whether CMake has worked in a directory. -/
def hasCache (h : Host) (dir : String) : Bool := h.isFile (Path.join dir cacheName)

/-- The absolute path of a directory, through links if it is there. -/
def normalDir? (h : Host) (dir : String) : Option String :=
  h.files.canonical? h.workDir dir <|> h.absolute? dir

/-- The absolute path of a directory that has to have one. -/
def normalDir (h : Host) (dir : String) : Except Failure String :=
  match normalDir? h dir with
  | some path => .ok path
  | none => .error (.invalidDirectory dir)

/-- The names of the directories with a cache directly inside a directory, in order. -/
def buildDirNames (h : Host) (sourceDir : String) : List String :=
  match h.files.list h.workDir sourceDir with
  | .error _ => []
  | .ok names =>
    (names.filter fun name =>
      h.isDirectory (Path.join sourceDir name) && hasCache h (Path.join sourceDir name)).mergeSort
        fun a b => a ≤ b

/-- Which build directory is used, and why. -/
inductive BuildDirChoice where
  /-- One of the user's with a cache. -/
  | located (dir : String)
  /-- One inside the source directory with a cache. -/
  | discovered (dir : String)
  /-- None, as CMake must not run. -/
  | nothing
  /-- One that CMake has yet to fill. -/
  | created (dir : String)
  deriving DecidableEq, Repr, Inhabited

namespace BuildDirChoice

/-- The directory that is used. -/
def dir? : BuildDirChoice → Option String
  | .located dir | .discovered dir | .created dir => some dir
  | .nothing => none

/-- What the log says about a choice. -/
def note : BuildDirChoice → String
  | .located dir => "Located valid build directory with " ++ cacheName ++ " at: " ++ dir
  | .discovered dir => "Automatic build dir discovery resulted in: " ++ dir
  | .nothing => "Unable to locate a valid build directory. Will not be creating one"
  | .created dir =>
    "Unable to locate a valid build directory. Will be creating one at " ++ dir

/-- How much detail the note is. -/
def level : BuildDirChoice → LogLevel
  | .located _ => .debug
  | _ => .info

/-- What to look at. -/
structure Options where
  sourceDir : String
  /-- The directories that the user names. -/
  candidates : List String
  /-- Whether to look inside the source directory. -/
  discovery : Bool
  /-- Whether CMake must not run. -/
  noConfigure : Bool

/-- The directory to be made: the first that the user names, else the default one. -/
def toCreate (h : Host) (o : Options) : Except Failure String :=
  match o.candidates with
  | [] => .ok (Path.join o.sourceDir defaultBuildDir)
  | first :: _ =>
    match h.absolute? first with
    | some dir => .ok dir
    | none => .error (.invalidBuildDir first)

/-- The directory found inside the source directory, if it is looked for. -/
def discovered? (h : Host) (o : Options) : Option String :=
  if o.discovery then (buildDirNames h o.sourceDir).head?.map (Path.join o.sourceDir) else none

/-- Makes the choice. -/
def select (h : Host) (o : Options) : Except Failure BuildDirChoice :=
  match o.candidates.find? (hasCache h) with
  | some dir => (normalDir h dir).map .located
  | none =>
    match discovered? h o with
    | some dir => .ok (.discovered dir)
    | none => if o.noConfigure then .ok .nothing else (toCreate h o).map .created

end BuildDirChoice

end LintHooks.CMake
