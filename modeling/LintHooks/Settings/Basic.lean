import LintHooks.Path
set_option autoImplicit false

/-!
# Settings

What a hook can be told: 25 keys, each of which may be unset.  A key holds a
truth value, a text or a list of texts, and the three sorts of keys are three
types, because the rules that merge settings differ by sort and by nothing else.
-/

namespace LintHooks

/-- The keys that hold a truth value. -/
inductive FlagKey where
  | devWarnings | noDevWarnings | devErrors | noDevErrors | clean | detectConfiguredFiles
  | automaticDiscovery | noCMakeConfigure | allAtOnce | readJsonDb | noDiff
  deriving DecidableEq, Repr

/-- The keys that hold one text. -/
inductive TextKey where
  | sourceDir | generator | toolset | platform | preset | cmake | version
  deriving DecidableEq, Repr

/-- The keys that hold a list of texts. -/
inductive ListKey where
  | buildDir | defines | undefines | unix | linux | mac | win
  deriving DecidableEq, Repr

/-- A key of any sort. -/
inductive Key where
  | flag (k : FlagKey)
  | text (k : TextKey)
  | list (k : ListKey)
  deriving DecidableEq, Repr

namespace Key

/-- The keys in the order in which they are written. -/
def all : List Key :=
  [.text .sourceDir, .list .buildDir, .list .defines, .list .undefines, .text .generator,
   .text .toolset, .text .platform, .text .preset, .flag .devWarnings, .flag .noDevWarnings,
   .flag .devErrors, .flag .noDevErrors, .list .unix, .list .linux, .list .mac, .list .win,
   .flag .clean, .text .cmake, .flag .detectConfiguredFiles, .flag .automaticDiscovery,
   .flag .noCMakeConfigure, .flag .allAtOnce, .flag .readJsonDb, .text .version, .flag .noDiff]

theorem mem_all (k : Key) : k ∈ all := by
  cases k with
  | flag k => cases k <;> decide
  | text k => cases k <;> decide
  | list k => cases k <;> decide

/-- The spelling of a key. -/
def name : Key → String
  | .text .sourceDir => "source_dir"
  | .list .buildDir => "build_dir"
  | .list .defines => "defines"
  | .list .undefines => "undefines"
  | .text .generator => "generator"
  | .text .toolset => "toolset"
  | .text .platform => "platform"
  | .text .preset => "preset"
  | .flag .devWarnings => "dev_warnings"
  | .flag .noDevWarnings => "no_dev_warnings"
  | .flag .devErrors => "dev_errors"
  | .flag .noDevErrors => "no_dev_errors"
  | .list .unix => "unix"
  | .list .linux => "linux"
  | .list .mac => "mac"
  | .list .win => "win"
  | .flag .clean => "clean"
  | .text .cmake => "cmake"
  | .flag .detectConfiguredFiles => "detect_configured_files"
  | .flag .automaticDiscovery => "automatic_discovery"
  | .flag .noCMakeConfigure => "no_cmake_configure"
  | .flag .allAtOnce => "all_at_once"
  | .flag .readJsonDb => "read_json_db"
  | .text .version => "version"
  | .flag .noDiff => "no_diff"

/-- The key with a spelling. -/
def ofName? (s : String) : Option Key := all.find? fun k => k.name = s

/-- Whether the texts of a key are paths. -/
def holdsPaths : Key → Bool
  | .text .sourceDir => true
  | .text .cmake => true
  | .list .buildDir => true
  | _ => false

end Key

/-- A choice of values for the keys.  `none` means that a key is unset. -/
structure Settings where
  flags : FlagKey → Option Bool := fun _ => none
  texts : TextKey → Option String := fun _ => none
  lists : ListKey → Option (List String) := fun _ => none

instance : Inhabited Settings := ⟨{}⟩

namespace Settings

@[ext] theorem ext' {a b : Settings} (hf : ∀ k, a.flags k = b.flags k)
    (ht : ∀ k, a.texts k = b.texts k) (hl : ∀ k, a.lists k = b.lists k) : a = b := by
  cases a; cases b
  simp only [Settings.mk.injEq]
  exact ⟨funext hf, funext ht, funext hl⟩

/-- Whether a flag is set and true. -/
def flag (s : Settings) (k : FlagKey) : Bool := (s.flags k).getD false

/-- The list of a key; an unset key counts as the empty list. -/
def list (s : Settings) (k : ListKey) : List String := (s.lists k).getD []

/-- The source directory where none is set. -/
def defaultSourceDir : String := "."

/-- The source directory. -/
def sourceDir (s : Settings) : String := (s.texts .sourceDir).getD defaultSourceDir

/-- The candidate build directories, in order of preference. -/
def buildDirs (s : Settings) : List String := s.list .buildDir

/-- Whether build directories inside the source directory are looked for. -/
def automaticDiscovery (s : Settings) : Bool := (s.flags .automaticDiscovery).getD true

def setFlag (s : Settings) (k : FlagKey) (v : Option Bool) : Settings :=
  { s with flags := fun j => if j = k then v else s.flags j }

def setText (s : Settings) (k : TextKey) (v : Option String) : Settings :=
  { s with texts := fun j => if j = k then v else s.texts j }

def setList (s : Settings) (k : ListKey) (v : Option (List String)) : Settings :=
  { s with lists := fun j => if j = k then v else s.lists j }

/-- Whether two settings agree in every key, paths compared by their components. -/
def same (a b : Settings) : Bool :=
  Key.all.all fun
    | .flag k => a.flags k == b.flags k
    | .text k =>
      if (Key.text k).holdsPaths then
        (a.texts k).map Path.components == (b.texts k).map Path.components
      else a.texts k == b.texts k
    | .list k =>
      if (Key.list k).holdsPaths then
        (a.lists k).map (·.map Path.components) == (b.lists k).map (·.map Path.components)
      else a.lists k == b.lists k

/-! ## Operating systems -/

/-- The arguments for CMake that are meant for an operating system: the common ones of Linux
and macOS first, then its own. -/
def platformArgs (s : Settings) (os : String) : List String :=
  let common := if os = "linux" ∨ os = "macos" then s.list .unix else []
  let own :=
    if os = "linux" then s.list .linux
    else if os = "macos" then s.list .mac
    else if os = "windows" then s.list .win
    else []
  common ++ own

/-! ## Layers

Settings come in layers.  A layer read from a file replaces every key it sets.  A layer from the
command line replaces single values too, but adds its lists to those below. -/

/-- The settings of `upper` where it sets a key, those of `lower` elsewhere. -/
def overlay (lower upper : Settings) : Settings where
  flags k := upper.flags k <|> lower.flags k
  texts k := upper.texts k <|> lower.texts k
  lists k := upper.lists k <|> lower.lists k

/-- Lists of the command line stand after those below; an unset list adds nothing. -/
def extendList (lower upper : Option (List String)) : Option (List String) :=
  match upper with
  | none => lower
  | some values => some (lower.getD [] ++ values)

/-- The settings under a command line: single values replace, lists are added at the end. -/
def applyCommandLine (lower cli : Settings) : Settings where
  flags k := cli.flags k <|> lower.flags k
  texts k := cli.texts k <|> lower.texts k
  lists k := extendList (lower.lists k) (cli.lists k)

/-- The settings of layers of files, lowest first, under a command line. -/
def merge (files : List Settings) (cli : Settings) : Settings :=
  (files.foldl overlay {}).applyCommandLine cli

/-- Whether a flag has the value that it has where nothing sets it. -/
def isDefaultFlag (k : FlagKey) (v : Bool) : Bool := v == (k == .automaticDiscovery)

/-- The settings without the keys whose value is that of an unset key. -/
def stripDefaults (s : Settings) : Settings where
  flags k := (s.flags k).filter fun v => !isDefaultFlag k v
  texts k := (s.texts k).filter fun v => !(k == .sourceDir && Path.same v defaultSourceDir)
  lists k := (s.lists k).filter fun v => !v.isEmpty

end Settings

end LintHooks
