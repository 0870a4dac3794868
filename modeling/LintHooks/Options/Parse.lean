import LintHooks.Options.Error
import LintHooks.Settings.Basic
set_option autoImplicit false

/-!
# Options: reading the hook's own options

The options are read from left to right and the first problem ends the reading.
An option whose value is the next token stays pending until something else is
accepted, so a token that is no option at all is reported before a pending option
is checked.
-/

namespace LintHooks

/-- One option that was given, with its value; a flag has none. -/
structure Occurrence where
  opt : Opt
  value : String := ""
  deriving DecidableEq, Repr, Inhabited

/-- What has been read of a command line. -/
structure Reading where
  /-- The options accepted so far, in order. -/
  given : List Occurrence := []
  /-- An option that awaits its value or has just received it. -/
  pending : Option (Opt × Option String) := none
  /-- Whether the separator has been read. -/
  ended : Bool := false
  deriving Repr, Inhabited

namespace Reading

/-- Whether an option has been accepted. -/
def has (r : Reading) (o : Opt) : Bool := r.given.any fun x => x.opt == o

/-- The option that still awaits its value. -/
def awaiting (r : Reading) : Option Opt :=
  match r.pending with
  | some (o, none) => some o
  | _ => none

/-- Checks the value of an option.  `executable` tells which paths can be run. -/
def checkValue (executable : String → Bool) (o : Opt) (value : String) :
    Except OptionError Unit :=
  if o.refusesEmpty && value = "" then .error (.missingValue o)
  else if !o.accepts value then
    .error (if value = "" then .missingValue o else .notAChoice o value)
  else if o = .cmake && !executable value then .error (.notExecutable value)
  else .ok ()

/-- Accepts an option with what was given as its value. -/
def accept (executable : String → Bool) (r : Reading) (o : Opt) (value : Option String) :
    Except OptionError Reading :=
  if o = .help then .error .help
  else if o.takesValue && value.isNone then .error (.missingValue o)
  else if !o.repeatable && r.has o then .error (.repeated o)
  else do
    if o.takesValue then checkValue executable o (value.getD "")
    .ok { r with given := r.given ++ [⟨o, value.getD ""⟩] }

/-- Accepts the pending option. -/
def settle (executable : String → Bool) (r : Reading) : Except OptionError Reading :=
  match r.pending with
  | none => .ok r
  | some (o, value) => accept executable { r with pending := none } o value

/-- Accepts the pending option and then another one, or lets the other wait for its value. -/
def take (executable : String → Bool) (r : Reading) (o : Opt) (value : Option String) :
    Except OptionError Reading := do
  let r ← settle executable r
  if o.takesValue && value.isNone then .ok { r with pending := some (o, none) }
  else accept executable r o value

/-- Whether any option has been accepted or at least has its value. -/
def anyTaken (r : Reading) : Bool := !r.given.isEmpty || r.pending.any fun p => p.2.isSome

/-- The value that stands in one token with its letter; one `=` in front of it is no part of
it. -/
def attachedValue (attached : String) : Option String :=
  match attached.toList with
  | [] => none
  | '=' :: value => some (String.ofList value)
  | _ => some attached

/-- Reads one token. -/
def step (executable : String → Bool) (r : Reading) (token : String) :
    Except OptionError Reading :=
  let unknown (name : String) := Except.error (OptionError.unknown name none false)
  let asValue (o : Opt) : Except OptionError Reading :=
    .ok { r with pending := some (o, some token) }
  if r.ended then unknown token
  else match r.awaiting with
  | some o =>
    if o.takesHyphen then asValue o
    else match Word.ofToken token with
      | .plain => asValue o
      | word => read unknown word
  | none => read unknown (Word.ofToken token)
where
  read (unknown : String → Except OptionError Reading) : Word → Except OptionError Reading
    | .separator => .ok { r with ended := true }
    | .plain => unknown token
    | .long name value =>
      match Opt.ofLong? name with
      | some o =>
        match o.takesValue, value with
        | false, some v => .error (.unexpectedValue o v (!r.given.isEmpty))
        | _, value => take executable r o value
      | none =>
        let longs := Opt.all.filterMap Opt.long?
        let similar := (Text.mostSimilar name longs).bind Opt.ofLong?
        .error (.unknown ("--" ++ name) similar r.anyTaken)
    | .short letter attached =>
      match Opt.ofShort? letter with
      | some o => take executable r o (if o.takesValue then attachedValue attached else none)
      | none => unknown ("-" ++ String.singleton letter)

/-- Reads the tokens of a command line. -/
def run (executable : String → Bool) (tokens : List String) : Except OptionError Reading := do
  settle executable (← tokens.foldlM (step executable) {})

/-- The value of an option that is given once at most. -/
def value? (r : Reading) (o : Opt) : Option String :=
  (r.given.find? fun x => x.opt == o).map Occurrence.value

/-- The values of the occurrences of some options, in the order of the command line. -/
def values (r : Reading) (opts : List Opt) : List String :=
  (r.given.filter fun x => opts.contains x.opt).map Occurrence.value

/-- Options with the index that each of them has behind the index `last`.  An index is counted for
the name of an option and one more for its value, and the index of an option is its last one. -/
def indexed (last : Nat) : List Occurrence → List (Nat × Occurrence)
  | [] => []
  | x :: rest =>
    let index := last + if x.opt.takesValue then 2 else 1
    (index, x) :: indexed index rest

/-- The indices of the occurrences of an option. -/
def indices (r : Reading) (o : Opt) : List Nat :=
  ((indexed 0 r.given).filter fun p => p.2.opt == o).map Prod.fst

/-- The arguments for a system: the values of its own option and those of the option for Unix.
Each is put beside its index, and the indices bring them into the order of the command line. -/
def platformValues (r : Reading) (system : Opt) : List String :=
  let paired := [Opt.unix, system].flatMap fun o => (r.indices o).zip (r.values [o])
  (paired.mergeSort fun a b => a.1 ≤ b.1).map Prod.snd

end Reading

/-- The spellings of a truth value. -/
def truthValue? (s : String) : Option Bool :=
  let word := s.map Char.toLower
  if ["y", "yes", "t", "true", "on", "1"].contains word then some true
  else if ["n", "no", "f", "false", "off", "0"].contains word then some false
  else none

/-- The options of one run of a hook. -/
structure HookOptions where
  config : Option String := none
  dumpToml : Bool := false
  hookVerbose : Bool := false
  noColor : Bool := false
  warnings : List String := []
  /-- The settings the command line asks for. -/
  layer : Settings := {}
  deriving Inhabited

namespace HookOptions

/-- A list that is set only if something is in it. -/
def nonEmpty (values : List String) : Option (List String) :=
  if values.isEmpty then none else some values

/-- A flag that is set only if it was given. -/
def given (b : Bool) : Option Bool := if b then some true else none

/-- The settings that the options ask for.  Arguments for Unix go to Linux and macOS both. -/
def layerOf (r : Reading) : Settings where
  flags
    | .devWarnings => given ((r.values [.warning]).contains "dev")
    | .noDevWarnings => given ((r.values [.warning]).contains "no-dev")
    | .devErrors => given ((r.values [.warning]).contains "error=dev")
    | .noDevErrors => given ((r.values [.warning]).contains "no-error=dev")
    | .clean => given (r.has .clean)
    | .detectConfiguredFiles => given (r.has .detectConfiguredFiles)
    | .automaticDiscovery => if r.has .noAutomaticDiscovery then some false else none
    | .noCMakeConfigure => given (r.has .noCMakeConfigure)
    | .allAtOnce => given (r.has .allAtOnce)
    | .readJsonDb => given (r.has .readJsonDb)
    | .noDiff => given (r.has .noDiff)
  texts
    | .sourceDir => r.value? .sourceDir
    | .generator => r.value? .generator
    | .toolset => r.value? .toolset
    | .platform => r.value? .platform
    | .preset => r.value? .preset
    | .cmake => r.value? .cmake
    | .version => r.value? .version
  lists
    | .buildDir => nonEmpty (r.values [.buildDir])
    | .defines => nonEmpty (r.values [.define])
    | .undefines => nonEmpty (r.values [.undefine])
    | .unix => none
    | .linux => nonEmpty (r.platformValues .linux)
    | .mac => nonEmpty (r.platformValues .mac)
    | .win => nonEmpty (r.values [.win])

/-- Whether debug messages are asked for: by the flag, else by the variable. -/
def verbosity (r : Reading) (env : String → Option String) : Except OptionError Bool :=
  if r.has .hookVerbose then .ok true
  else match Opt.hookVerbose.envName?.bind env with
    | none => .ok false
    | some v =>
      match truthValue? v with
      | some b => .ok b
      | none => .error (.notABoolean .hookVerbose v)

/-- Reads the options of a hook.  The variable is looked at only when the tokens are in order. -/
def parse (executable : String → Bool) (env : String → Option String) (tokens : List String) :
    Except OptionError HookOptions := do
  let r ← Reading.run executable tokens
  let verbose ← verbosity r env
  .ok
    { config := r.value? .config
      dumpToml := r.has .dumpToml
      hookVerbose := verbose
      noColor := r.has .noColor
      warnings := r.values [.warning]
      layer := layerOf r }

end HookOptions

end LintHooks
