import LintHooks.Text.Basic
set_option autoImplicit false

/-!
# Options: the table

Every option a hook understands, with its spellings, what value it takes and how
often it may be given.  Sorting a command line, reading it and describing it in
the help all go by this one table.
-/

namespace LintHooks

/-- The options of a hook. -/
inductive Opt where
  | config | dumpToml | allAtOnce | readJsonDb | version | noDiff | hookVerbose | noColor
  | sourceDir | buildDir | define | undefine | generator | toolset | platform | preset | warning
  | clean | cmake | detectConfiguredFiles | noAutomaticDiscovery | noCMakeConfigure
  | unix | linux | mac | win
  | help
  deriving DecidableEq, Repr, Inhabited

/-- The part of the help an option is described in. -/
inductive OptGroup where
  | hook | cmake | platform | general
  deriving DecidableEq, Repr

namespace Opt

/-- The options in the order of the help; the help option itself is last. -/
def all : List Opt :=
  [.config, .dumpToml, .allAtOnce, .readJsonDb, .version, .noDiff, .hookVerbose, .noColor,
   .sourceDir, .buildDir, .define, .undefine, .generator, .toolset, .platform, .preset, .warning,
   .clean, .cmake, .detectConfiguredFiles, .noAutomaticDiscovery, .noCMakeConfigure,
   .unix, .linux, .mac, .win, .help]

theorem mem_all (o : Opt) : o ∈ all := by cases o <;> decide

/-- The letter of an option. -/
def short? : Opt → Option Char
  | .sourceDir => some 'S'
  | .buildDir => some 'B'
  | .define => some 'D'
  | .undefine => some 'U'
  | .generator => some 'G'
  | .toolset => some 'T'
  | .platform => some 'A'
  | .warning => some 'W'
  | .help => some 'h'
  | _ => none

/-- The long name of an option. -/
def long? : Opt → Option String
  | .config => some "config"
  | .dumpToml => some "dump-toml"
  | .allAtOnce => some "all-at-once"
  | .readJsonDb => some "read-json-db"
  | .version => some "version"
  | .noDiff => some "no-diff"
  | .hookVerbose => some "hook-verbose"
  | .noColor => some "no-color"
  | .sourceDir => some "source-dir"
  | .buildDir => some "build-dir"
  | .preset => some "preset"
  | .clean => some "clean"
  | .cmake => some "cmake"
  | .detectConfiguredFiles => some "detect-configured-files"
  | .noAutomaticDiscovery => some "no-automatic-discovery"
  | .noCMakeConfigure => some "no-cmake-configure"
  | .unix => some "unix"
  | .linux => some "linux"
  | .mac => some "mac"
  | .win => some "win"
  | .help => some "help"
  | _ => none

/-- What the help calls the value of an option; a flag takes none. -/
def valueName? : Opt → Option String
  | .config => some "FILE"
  | .version => some "VERSION"
  | .sourceDir => some "DIR"
  | .buildDir => some "DIR"
  | .define => some "KEY[:TYPE]=VALUE"
  | .undefine => some "GLOBBING_EXPR"
  | .generator => some "GENERATOR"
  | .toolset => some "TOOLSET"
  | .platform => some "PLATFORM"
  | .preset => some "NAME"
  | .warning => some "WARNING"
  | .cmake => some "PATH"
  | .unix => some "ARG"
  | .linux => some "ARG"
  | .mac => some "ARG"
  | .win => some "ARG"
  | _ => none

/-- Whether an option takes a value. -/
def takesValue (o : Opt) : Bool := o.valueName?.isSome

/-- Whether an option may be given more than once. -/
def repeatable : Opt → Bool
  | .buildDir | .define | .undefine | .warning | .unix | .linux | .mac | .win => true
  | _ => false

/-- Whether a separate value may look like an option. -/
def takesHyphen : Opt → Bool
  | .unix | .linux | .mac | .win => true
  | _ => false

/-- Whether the empty value counts as none. -/
def refusesEmpty : Opt → Bool
  | .config | .sourceDir | .buildDir => true
  | _ => false

/-- The only values an option accepts; no list means that any will do. -/
def choices : Opt → List String
  | .warning => ["dev", "no-dev", "error=dev", "no-error=dev"]
  | _ => []

/-- Whether a value is among the choices of an option. -/
def accepts (o : Opt) (value : String) : Bool := o.choices.isEmpty || o.choices.contains value

/-- The option with a letter. -/
def ofShort? (c : Char) : Option Opt := all.find? fun o => o.short? == some c

/-- The option with a long name. -/
def ofLong? (name : String) : Option Opt := all.find? fun o => o.long? == some name

/-- How messages name an option: by its long name if it has one, with its value. -/
def label (o : Opt) : String :=
  let spelling := match o.long?, o.short? with
    | some name, _ => "--" ++ name
    | none, some c => "-" ++ String.singleton c
    | none, none => ""
  match o.valueName? with
  | some value => spelling ++ " <" ++ value ++ ">"
  | none => spelling

/-- The part of the help an option stands in. -/
def group : Opt → OptGroup
  | .config | .dumpToml | .allAtOnce | .readJsonDb | .version | .noDiff | .hookVerbose
  | .noColor => .hook
  | .unix | .linux | .mac | .win => .platform
  | .help => .general
  | _ => .cmake

/-- What the help says about an option. -/
def summary : Opt → String
  | .config => "Read hook settings from this TOML file"
  | .dumpToml => "Print the merged settings as TOML and exit"
  | .allAtOnce => "Run the tool once with all files instead of once per file"
  | .readJsonDb => "Also process the files listed in compile_commands.json"
  | .version => "Require this version of the wrapped tool"
  | .noDiff => "Formatters only: do not print a diff of the changes"
  | .hookVerbose => "Print debug information about what the hook does"
  | .noColor => "Disable colored output"
  | .sourceDir => "Path to the source directory"
  | .buildDir => "Candidate build directory (repeatable, first match wins)"
  | .define => "Create or update a CMake cache entry"
  | .undefine => "Remove matching entries from the CMake cache"
  | .generator => "Specify a build system generator"
  | .toolset => "Toolset specification for the generator, if supported"
  | .platform => "Platform name, if supported by the generator"
  | .preset => "Name of a configure preset"
  | .warning => "CMake developer warnings (-Wdev, -Wno-dev, -Werror=dev, -Wno-error=dev)"
  | .clean => "Remove the content of the build directory before configuring"
  | .cmake => "Path to the CMake executable"
  | .detectConfiguredFiles => "Detect files generated by configure_file() and process them too"
  | .noAutomaticDiscovery =>
    "Do not look for existing build directories inside the source directory"
  | .noCMakeConfigure => "Never run the CMake configure step"
  | .unix => "CMake argument for Linux and macOS only"
  | .linux => "CMake argument for Linux only"
  | .mac => "CMake argument for macOS only"
  | .win => "CMake argument for Windows only"
  | .help => "Print help"

/-- The environment variable that stands in for an option that is not given. -/
def envName? : Opt → Option String
  | .hookVerbose => some "CMAKE_PC_HOOKS_VERBOSE"
  | _ => none

end Opt

/-! ## Words -/

/-- What a token of a command line looks like. -/
inductive Word where
  /-- Two hyphens alone. -/
  | separator
  /-- Two hyphens and a name, with the text after the first `=` if there is one. -/
  | long (name : String) (value : Option String)
  /-- One hyphen, a letter and what follows it. -/
  | short (letter : Char) (rest : String)
  | plain
  deriving DecidableEq, Repr, Inhabited

/-- The look of a token. -/
def Word.ofToken (token : String) : Word :=
  match token.toList with
  | ['-', '-'] => .separator
  | '-' :: '-' :: body =>
    match Text.cut? '=' body with
    | some (name, value) => .long (String.ofList name) (some (String.ofList value))
    | none => .long (String.ofList body) none
  | '-' :: c :: rest => .short c (String.ofList rest)
  | _ => .plain

end LintHooks
