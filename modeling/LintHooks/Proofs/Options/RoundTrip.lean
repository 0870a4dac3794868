import LintHooks.Proofs.Basic
import LintHooks.Proofs.Options.Layout
import LintHooks.Proofs.Options.Platforms
import LintHooks.Proofs.Options.Rendering
set_option autoImplicit false

/-!
# Options: settings on a command line

Settings that a command line can ask for at all are written as one token for each value, in
any order that keeps the order within a list, with files and options of the tool between
them.  Such a command line can be taken apart again: sorting finds the tokens, and reading
them gives back the settings.

The order in which the keys are mixed drops out because no two of them share an option: the
options that set a key are the options of its name (`filter_opt`).  The four warnings are the
exception; they share one option and are told apart by its values (`contains_warning`).

The main result is `command_line_round_trip`.  For sorting it has `Asks.sort_eq`, where the tokens
are taken off the merged streams one at a time.  For reading it has `parse_tokens`: the tokens give
their options (`run_tokens`), and the options give the settings (`layerOf_given`), for which there
is a lemma for each kind of key (`has_flag`, `contains_warning`, `value?_text`, `nonEmpty_values`).
An example with values that look like options, files and separators is
`command_line_round_trip_disguised`.
-/

namespace LintHooks

/-! ## Settings as options -/

/-- The option that sets a key. -/
def Key.opt : Key → Opt
  | .flag .devWarnings => .warning
  | .flag .noDevWarnings => .warning
  | .flag .devErrors => .warning
  | .flag .noDevErrors => .warning
  | .flag .clean => .clean
  | .flag .detectConfiguredFiles => .detectConfiguredFiles
  | .flag .automaticDiscovery => .noAutomaticDiscovery
  | .flag .noCMakeConfigure => .noCMakeConfigure
  | .flag .allAtOnce => .allAtOnce
  | .flag .readJsonDb => .readJsonDb
  | .flag .noDiff => .noDiff
  | .text .sourceDir => .sourceDir
  | .text .generator => .generator
  | .text .toolset => .toolset
  | .text .platform => .platform
  | .text .preset => .preset
  | .text .cmake => .cmake
  | .text .version => .version
  | .list .buildDir => .buildDir
  | .list .defines => .define
  | .list .undefines => .undefine
  | .list .unix => .unix
  | .list .linux => .linux
  | .list .mac => .mac
  | .list .win => .win

/-- The value that sets a flag, if its option takes one. -/
def FlagKey.word : FlagKey → String
  | .devWarnings => "dev"
  | .noDevWarnings => "no-dev"
  | .devErrors => "error=dev"
  | .noDevErrors => "no-error=dev"
  | _ => ""

/-- Only the warnings share an option. -/
theorem Key.opt_injective {j k : Key} (hk : k.opt ≠ .warning) (h : j.opt = k.opt) : j = k := by
  have table : ∀ j ∈ all, ∀ k ∈ all, k.opt ≠ .warning → j.opt = k.opt → j = k := by decide
  exact table j (mem_all j) k (mem_all k) hk h

/-- The values of the warnings tell them apart. -/
theorem FlagKey.word_injective {j k : FlagKey} (hj : (Key.flag j).opt = .warning)
    (hk : (Key.flag k).opt = .warning) (h : j.word = k.word) : j = k := by
  cases j <;> cases hj <;> cases k <;> cases hk <;> first | rfl | exact absurd h (by decide)

/-- Some options are not about settings. -/
theorem Key.opt_ne {o : Opt} (ho : o ∈ [.config, .dumpToml, .hookVerbose, .noColor, .help])
    (k : Key) : k.opt ≠ o := by
  have table : ∀ k ∈ all, ∀ o ∈ ([.config, .dumpToml, .hookVerbose, .noColor, .help] : List Opt),
      k.opt ≠ o := by decide
  exact table k (mem_all k) o ho

namespace Settings

/-- The options that set a key to its value. -/
def occurrences (s : Settings) : Key → List Occurrence
  | .flag k => (s.flags k).toList.map fun _ => ⟨(Key.flag k).opt, k.word⟩
  | .text k => (s.texts k).toList.map fun v => ⟨(Key.text k).opt, v⟩
  | .list k => (s.list k).map fun v => ⟨(Key.list k).opt, v⟩

/-- Settings that a command line can ask for.  There is an option only for the value that a flag
does not have by itself, no option sets a list to nothing, and none sets the list for Unix. -/
structure Expressible (executable : String → Bool) (s : Settings) : Prop where
  flags : ∀ k v, s.flags k = some v → v = (k != .automaticDiscovery)
  texts : ∀ k v, s.texts k = some v → v ≠ ""
  lists : ∀ k vs, s.lists k = some vs → vs ≠ [] ∧ ∀ v ∈ vs, v ≠ ""
  unix : s.lists .unix = none
  cmake : ∀ v, s.texts .cmake = some v → executable v = true

variable {executable : String → Bool} {s : Settings} {x : Occurrence} {k : Key}

theorem opt_of_mem_occurrences (h : x ∈ s.occurrences k) : x.opt = k.opt := by
  cases k with
  | flag k =>
    obtain ⟨v, -, rfl⟩ := List.mem_map.1 h
    rfl
  | text k =>
    obtain ⟨v, -, rfl⟩ := List.mem_map.1 h
    rfl
  | list k =>
    obtain ⟨v, -, rfl⟩ := List.mem_map.1 h
    rfl

theorem Expressible.valid (hs : s.Expressible executable) (h : x ∈ s.occurrences k) :
    x.Valid executable := by
  have hhelp : x.opt ≠ .help := by
    rw [opt_of_mem_occurrences h]
    exact k.opt_ne (by decide)
  cases k with
  | flag k =>
    obtain ⟨v, -, rfl⟩ := List.mem_map.1 h
    refine ⟨hhelp, ?_, ?_, ?_, ?_⟩
    · cases k <;> decide
    · cases k <;> decide
    · cases k <;> decide
    · cases k <;> nofun
  | text k =>
    obtain ⟨v, hv, rfl⟩ := List.mem_map.1 h
    have hv : s.texts k = some v := Option.mem_toList.1 hv
    refine ⟨hhelp, ?_, fun _ => hs.texts k v hv, ?_, ?_⟩
    · cases k <;> nofun
    · cases k <;> rfl
    · intro hc
      obtain rfl : k = .cmake := by cases k <;> first | rfl | cases hc
      exact hs.cmake v hv
  | list k =>
    obtain ⟨v, hv, rfl⟩ := List.mem_map.1 h
    refine ⟨hhelp, ?_, fun _ => ?_, ?_, ?_⟩
    · cases k <;> nofun
    · rw [list] at hv
      cases hl : s.lists k with
      | none =>
        rw [hl] at hv
        cases hv
      | some vs =>
        rw [hl] at hv
        exact (hs.lists k vs hl).2 v hv
    · cases k <;> rfl
    · cases k <;> nofun

/-- An option that may stand once only sets one key, and a key with one value at most. -/
theorem length_occurrences_le (hk : k.opt.repeatable = false) :
    (s.occurrences k).length ≤ 1 := by
  cases k with
  | flag k => cases hf : s.flags k <;> simp [occurrences, hf]
  | text k => cases ht : s.texts k <;> simp [occurrences, ht]
  | list k => cases k <;> cases hk

/-! ## Settings read back -/

variable {occs : List Occurrence} {o : Opt}

theorem filter_opt (h : Merges s.occurrences occs) (hk : k.opt ≠ .warning) :
    occs.filter (fun x => x.opt == k.opt) = s.occurrences k := by
  apply h.filter_eq
  intro j x hx
  apply decide_eq_decide.2
  rw [opt_of_mem_occurrences hx]
  exact ⟨Key.opt_injective hk, congrArg Key.opt⟩

theorem once_of_merges (h : Merges s.occurrences occs) : Reading.Once occs := by
  intro o ho
  by_cases hk : ∃ k : Key, k.opt = o
  · obtain ⟨k, rfl⟩ := hk
    have hw : k.opt ≠ .warning := fun hw => by
      rw [hw] at ho
      cases ho
    rw [filter_opt h hw]
    exact length_occurrences_le ho
  · have hnone : occs.filter (fun x => x.opt == o) = [] := by
      refine List.filter_eq_nil_iff.2 fun x hx he => hk ?_
      obtain ⟨k, hxk⟩ := h.mem_iff.1 hx
      exact ⟨k, (opt_of_mem_occurrences hxk).symm.trans (eq_of_beq he)⟩
    rw [hnone]
    exact Nat.zero_le 1

theorem has_iff (h : Merges s.occurrences occs) :
    Reading.has { given := occs } o = true ↔ ∃ k : Key, k.opt = o ∧ s.occurrences k ≠ [] := by
  rw [Reading.has, List.any_eq_true]
  constructor
  · rintro ⟨x, hx, he⟩
    obtain ⟨k, hxk⟩ := h.mem_iff.1 hx
    exact ⟨k, (opt_of_mem_occurrences hxk).symm.trans (eq_of_beq he), List.ne_nil_of_mem hxk⟩
  · rintro ⟨k, rfl, hne⟩
    obtain ⟨x, hx⟩ := List.exists_mem_of_ne_nil _ hne
    exact ⟨x, h.mem_iff.2 ⟨k, hx⟩, beq_iff_eq.2 (opt_of_mem_occurrences hx)⟩

theorem has_eq_false (h : Merges s.occurrences occs)
    (ho : o ∈ [.config, .dumpToml, .hookVerbose, .noColor, .help]) :
    Reading.has { given := occs } o = false := by
  apply Bool.eq_false_iff.2
  intro hhas
  obtain ⟨k, hk, -⟩ := (has_iff h).1 hhas
  exact k.opt_ne ho hk

theorem has_flag (h : Merges s.occurrences occs) {k : FlagKey} (hk : (Key.flag k).opt ≠ .warning) :
    Reading.has { given := occs } (Key.flag k).opt = (s.flags k).isSome := by
  rw [Bool.eq_iff_iff, has_iff h]
  constructor
  · rintro ⟨j, hj, hne⟩
    obtain rfl := Key.opt_injective hk hj
    obtain ⟨x, hx⟩ := List.exists_mem_of_ne_nil _ hne
    obtain ⟨v, hv, -⟩ := List.mem_map.1 hx
    exact Option.isSome_iff_exists.2 ⟨v, Option.mem_toList.1 hv⟩
  · intro hsome
    obtain ⟨v, hv⟩ := Option.isSome_iff_exists.1 hsome
    exact ⟨.flag k, rfl, List.ne_nil_of_mem (List.mem_map.2 ⟨v, Option.mem_toList.2 hv, rfl⟩)⟩

/-- A warning is told from the others by its value. -/
theorem contains_warning (h : Merges s.occurrences occs) {k : FlagKey}
    (hk : (Key.flag k).opt = .warning) :
    (Reading.values { given := occs } [.warning]).contains k.word = (s.flags k).isSome := by
  rw [Bool.eq_iff_iff, List.contains_iff_mem, Reading.values, List.mem_map]
  constructor
  · rintro ⟨x, hx, hv⟩
    obtain ⟨hmem, ho⟩ := List.mem_filter.1 hx
    have ho : x.opt = .warning := by simpa using ho
    obtain ⟨j, hxj⟩ := h.mem_iff.1 hmem
    have hj : j.opt = .warning := (opt_of_mem_occurrences hxj).symm.trans ho
    cases j with
    | flag j =>
      obtain ⟨b, hb, rfl⟩ := List.mem_map.1 hxj
      obtain rfl := FlagKey.word_injective hj hk hv
      exact Option.isSome_iff_exists.2 ⟨b, Option.mem_toList.1 hb⟩
    | text j => cases j <;> cases hj
    | list j => cases j <;> cases hj
  · intro hsome
    obtain ⟨b, hb⟩ := Option.isSome_iff_exists.1 hsome
    have hmem : (⟨(Key.flag k).opt, k.word⟩ : Occurrence) ∈ s.occurrences (.flag k) :=
      List.mem_map.2 ⟨b, Option.mem_toList.2 hb, rfl⟩
    refine ⟨_, List.mem_filter.2 ⟨h.mem_iff.2 ⟨_, hmem⟩, ?_⟩, rfl⟩
    simp [hk]

theorem value?_text (h : Merges s.occurrences occs) (k : TextKey) :
    Reading.value? { given := occs } (Key.text k).opt = s.texts k := by
  have hk : (Key.text k).opt ≠ .warning := by cases k <;> nofun
  rw [Reading.value?, ← List.head?_filter, filter_opt h hk]
  cases ht : s.texts k <;> simp [occurrences, ht]

theorem nonEmpty_values (hs : s.Expressible executable) (h : Merges s.occurrences occs)
    {opts : List Opt} {k : ListKey}
    (hk : ∀ j ∈ Key.all, j ≠ .list .unix → opts.contains j.opt = decide (j = .list k)) :
    HookOptions.nonEmpty (Reading.values { given := occs } opts) = s.lists k := by
  have hfilter : occs.filter (fun x => opts.contains x.opt) = s.occurrences (.list k) := by
    apply h.filter_eq
    intro j x hx
    -- Linux and macOS look at the options for Unix, too, but no key asks for these.
    have hj : j ≠ .list .unix := by
      rintro rfl
      rw [occurrences, list, hs.unix] at hx
      cases hx
    rw [opt_of_mem_occurrences hx]
    exact hk j j.mem_all hj
  have hvalues : Reading.values { given := occs } opts = s.list k := by
    rw [Reading.values, hfilter, occurrences, List.map_map]
    exact List.map_id _
  rw [hvalues, list, HookOptions.nonEmpty]
  cases hl : s.lists k with
  | none => rfl
  | some vs =>
    rw [Option.getD_some, if_neg]
    exact fun he => (hs.lists k vs hl).1 (List.isEmpty_iff.1 he)

theorem given_isSome (hs : s.Expressible executable) {k : FlagKey} (hk : k ≠ .automaticDiscovery) :
    HookOptions.given (s.flags k).isSome = s.flags k := by
  cases hf : s.flags k with
  | none => rfl
  | some v =>
    obtain rfl := hs.flags k v hf
    rw [bne_iff_ne.2 hk]
    rfl

/-- The options that a command line is made of ask for the settings again. -/
theorem layerOf_given (hs : s.Expressible executable) (h : Merges s.occurrences occs) :
    HookOptions.layerOf { given := occs } = s := by
  have warning (k : FlagKey) (ha : k ≠ .automaticDiscovery) (hk : (Key.flag k).opt = .warning) :
      HookOptions.given ((Reading.values { given := occs } [.warning]).contains k.word)
        = s.flags k := by
    rw [contains_warning h hk, given_isSome hs ha]
  have flag (k : FlagKey) (ha : k ≠ .automaticDiscovery) (hk : (Key.flag k).opt ≠ .warning) :
      HookOptions.given (Reading.has { given := occs } (Key.flag k).opt) = s.flags k := by
    rw [has_flag h hk, given_isSome hs ha]
  have discovery : (if Reading.has { given := occs } .noAutomaticDiscovery then some false
      else none) = s.flags .automaticDiscovery := by
    rw [show Opt.noAutomaticDiscovery = (Key.flag .automaticDiscovery).opt from rfl,
      has_flag h (by nofun)]
    cases hf : s.flags .automaticDiscovery with
    | none => rfl
    | some v =>
      obtain rfl := hs.flags _ v hf
      rfl
  apply Settings.ext' <;> intro k
  · cases k with
    | devWarnings => exact warning .devWarnings nofun rfl
    | noDevWarnings => exact warning .noDevWarnings nofun rfl
    | devErrors => exact warning .devErrors nofun rfl
    | noDevErrors => exact warning .noDevErrors nofun rfl
    | automaticDiscovery => exact discovery
    | clean => exact flag .clean nofun nofun
    | detectConfiguredFiles => exact flag .detectConfiguredFiles nofun nofun
    | noCMakeConfigure => exact flag .noCMakeConfigure nofun nofun
    | allAtOnce => exact flag .allAtOnce nofun nofun
    | readJsonDb => exact flag .readJsonDb nofun nofun
    | noDiff => exact flag .noDiff nofun nofun
  · have text : (HookOptions.layerOf { given := occs }).texts k =
        Reading.value? { given := occs } (Key.text k).opt := by cases k <;> rfl
    rw [text, value?_text h]
  · cases k with
    | buildDir => exact nonEmpty_values hs h (by decide)
    | defines => exact nonEmpty_values hs h (by decide)
    | undefines => exact nonEmpty_values hs h (by decide)
    | unix => exact hs.unix.symm
    | linux =>
      have hvalues := Reading.platformValues_eq { given := occs } (o := .linux) (by decide)
      exact (congrArg HookOptions.nonEmpty hvalues).trans (nonEmpty_values hs h (by decide))
    | mac =>
      have hvalues := Reading.platformValues_eq { given := occs } (o := .mac) (by decide)
      exact (congrArg HookOptions.nonEmpty hvalues).trans (nonEmpty_values hs h (by decide))
    | win => exact nonEmpty_values hs h (by decide)

/-- Reading the tokens gives the settings.  Only the variable that asks for debug messages can
still spoil it. -/
theorem parse_tokens (hs : s.Expressible executable) (h : Merges s.occurrences occs)
    (env : String → Option String) :
    HookOptions.parse executable env (occs.map Occurrence.token) =
      (HookOptions.verbosity {} env).map fun verbose =>
        { hookVerbose := verbose
          warnings := Reading.values { given := occs } [.warning]
          layer := s } := by
  have hvalid : ∀ x ∈ occs, x.Valid executable := by
    intro x hx
    obtain ⟨k, hxk⟩ := h.mem_iff.1 hx
    exact hs.valid hxk
  have hconfig : Reading.value? { given := occs } .config = none := by
    rw [Reading.value?, Option.map_eq_none_iff, List.find?_eq_none]
    exact List.any_eq_false.1 (has_eq_false h (o := .config) (by decide))
  have hverbosity : HookOptions.verbosity { given := occs } env = HookOptions.verbosity {} env := by
    rw [HookOptions.verbosity, has_eq_false h (by decide)]
    rfl
  rw [HookOptions.parse, Reading.run_tokens hvalid (once_of_merges h)]
  simp only [bind, Except.bind, hverbosity, hconfig, layerOf_given hs h,
    has_eq_false h (o := .dumpToml) (by decide), has_eq_false h (o := .noColor) (by decide)]
  cases HookOptions.verbosity {} env <;> rfl

end Settings

/-! ## Whole command lines -/

/-- The options of a tool: no hook has an option of that name or letter, or the warning is none of
those for CMake. -/
inductive Foreign : String → Prop
  | named {name : String} (value : String) : '=' ∉ name.toList → (∀ o : Opt, o.long? ≠ some name) →
    Foreign ("--" ++ name ++ "=" ++ value)
  | name {name : String} : '=' ∉ name.toList → name ≠ "" → (∀ o : Opt, o.long? ≠ some name) →
    Foreign ("--" ++ name)
  | letter {letter : Char} (rest : String) : letter ≠ '-' → (∀ o : Opt, o.short? ≠ some letter) →
    Foreign ("-" ++ String.singleton letter ++ rest)
  | warning {value : String} : value ≠ "" → value ∉ Opt.warning.choices → Foreign ("-W" ++ value)

theorem Foreign.kindOf_eq {token : String} (h : Foreign token) :
    Invocation.kindOf token = .tool := by
  have long {name : String} (ho : ∀ o : Opt, o.long? ≠ some name) : Opt.ofLong? name = none :=
    List.find?_eq_none.2 fun o _ he => ho o (eq_of_beq he)
  have short {letter : Char} (ho : ∀ o : Opt, o.short? ≠ some letter) :
      Opt.ofShort? letter = none :=
    List.find?_eq_none.2 fun o _ he => ho o (eq_of_beq he)
  cases h with
  | named value heq ho => simp only [Invocation.kindOf, Word.ofToken_named heq, long ho]
  | name heq hne ho => simp only [Invocation.kindOf, Word.ofToken_name heq hne, long ho]
  | letter rest hne ho =>
    simp only [Invocation.kindOf, Word.ofToken_letter hne, short ho]
  | @warning value hne hc =>
    have hw : Word.ofToken ("-W" ++ value) = .short 'W' value :=
      Word.ofToken_letter (show 'W' ≠ '-' by decide) value
    have ho : Opt.ofShort? 'W' = some .warning := by decide
    have ha : Opt.warning.accepts value = false := by
      rw [Opt.accepts, Bool.or_eq_false_iff]
      exact ⟨rfl, Bool.eq_false_iff.2 fun hm => hc (List.contains_iff_mem.1 hm)⟩
    have ht : Opt.warning.takesValue = true := rfl
    simp [Invocation.kindOf, hw, ho, ht, ha, hne]

theorem Invocation.kindOf_of_not_hyphen {token : String} (h : token.toList.head? ≠ some '-') :
    kindOf token = .file := by
  refine kindOf_eq_file_iff.2 ?_
  rw [Word.ofToken]
  split
  · next he => exact absurd (congrArg List.head? he) h
  · next he => exact absurd (congrArg List.head? he) h
  · next he => exact absurd (congrArg List.head? he) h
  · rfl

namespace Settings

/-- A command line that asks for settings, and the streams that it is merged from. -/
structure Asks (s : Settings) (occs : List Occurrence) (i : Invocation) (args : List String) :
    Prop where
  /-- The values are given in any order that keeps the order within a list. -/
  settings : Merges s.occurrences occs
  hookArgs : i.hookArgs = occs.map Occurrence.token
  toolArgs : ∀ token ∈ i.toolArgs, Foreign token
  files : ∀ token ∈ i.files, token.toList.head? ≠ some '-'
  /-- The streams are merged in any way, with or without a separator and more behind it. -/
  merged : ∃ front tail, args = front ++ tail ∧ Merges i.stream front
    ∧ (tail = [] ∧ i.ddash = [] ∨ tail = "--" :: i.ddash)

variable {executable : String → Bool} {s : Settings} {occs : List Occurrence} {i : Invocation}
  {args : List String}

theorem Asks.sort_eq (h : s.Asks occs i args) (hs : s.Expressible executable) :
    Invocation.sort args = i := by
  obtain ⟨front, tail, rfl, hm, ht⟩ := h.merged
  refine Invocation.sort_of_merges hm ?_ ht
  intro k token hk
  cases k with
  | hook =>
    rw [Invocation.stream, h.hookArgs] at hk
    obtain ⟨x, hx, rfl⟩ := List.mem_map.1 hk
    obtain ⟨k, hxk⟩ := h.settings.mem_iff.1 hx
    exact (hs.valid hxk).kindOf_token
  | tool => exact (h.toolArgs token hk).kindOf_eq
  | file => exact Invocation.kindOf_of_not_hyphen (h.files token hk)

/-- A command line that asks for settings is sorted into the streams that it is merged from, and
its options are read as these settings and nothing else.  Reading them fails for one reason only:
the variable that asks for debug messages is set and is no truth value. -/
theorem command_line_round_trip (hs : s.Expressible executable) (h : s.Asks occs i args) :
    Invocation.sort args = i ∧ ∀ env : String → Option String,
      HookOptions.parse executable env (Invocation.sort args).hookArgs =
        match (env "CMAKE_PC_HOOKS_VERBOSE").map fun v => (v, truthValue? v) with
        | some (v, none) => .error (.notABoolean .hookVerbose v)
        | some (_, some verbose) =>
          .ok { hookVerbose := verbose, warnings := Reading.values { given := occs } [.warning]
                layer := s }
        | none => .ok { warnings := Reading.values { given := occs } [.warning], layer := s } := by
  have hsort := h.sort_eq hs
  refine ⟨hsort, ?_⟩
  intro env
  have hname : Opt.hookVerbose.envName?.bind env = env "CMAKE_PC_HOOKS_VERBOSE" := rfl
  have hgiven : Reading.has {} .hookVerbose = false := rfl
  rw [hsort, h.hookArgs, parse_tokens hs h.settings, HookOptions.verbosity, hgiven, hname]
  cases env "CMAKE_PC_HOOKS_VERBOSE" with
  | none => rfl
  | some v =>
    dsimp only [Option.map_some]
    cases truthValue? v <;> rfl

/-! ### Settings whose values look like options and separators -/

def disguised : Settings where
  flags
    | .devErrors => some true
    | .noDiff => some true
    | .automaticDiscovery => some false
    | _ => none
  texts
    | .sourceDir => some "--source-dir=."
    | .cmake => some "/usr/bin/cmake"
    | _ => none
  lists
    | .defines => some ["A=-DB=1", "--"]
    | .linux => some ["--", "-W"]
    | _ => none

/-- The options for them, each with the key that it sets. -/
def disguisedOptions : List (Key × Occurrence) :=
  [(.list .linux, ⟨.linux, "--"⟩), (.flag .devErrors, ⟨.warning, "error=dev"⟩),
   (.list .defines, ⟨.define, "A=-DB=1"⟩), (.flag .noDiff, ⟨.noDiff, ""⟩),
   (.text .cmake, ⟨.cmake, "/usr/bin/cmake"⟩), (.list .defines, ⟨.define, "--"⟩),
   (.text .sourceDir, ⟨.sourceDir, "--source-dir=."⟩),
   (.flag .automaticDiscovery, ⟨.noAutomaticDiscovery, ""⟩), (.list .linux, ⟨.linux, "-W"⟩)]

/-- The tokens in front of the separator, each with the stream that it belongs to. -/
def disguisedTokens : List (Invocation.Stream × String) :=
  [(.hook, "--linux=--"), (.file, "a.c"), (.hook, "-Werror=dev"), (.hook, "-D=A=-DB=1"),
   (.tool, "--fix=--"), (.hook, "--no-diff"), (.tool, "-Wall"), (.hook, "--cmake=/usr/bin/cmake"),
   (.hook, "-D=--"), (.hook, "--source-dir=--source-dir=."), (.file, ""), (.tool, "-x"),
   (.hook, "--no-automatic-discovery"), (.hook, "--linux=-W")]

def disguisedInvocation : Invocation where
  hookArgs := disguisedOptions.map fun p => p.2.token
  toolArgs := ["--fix=--", "-Wall", "-x"]
  files := ["a.c", ""]
  ddash := ["--", "-W"]

theorem disguised_expressible : disguised.Expressible (· == "/usr/bin/cmake") where
  flags k v h := by cases k <;> cases h <;> rfl
  texts k v h := by cases k <;> cases h <;> decide
  lists k vs h := by cases k <;> cases h <;> decide
  unix := rfl
  cmake v h := by
    cases h
    rfl

theorem disguised_asks :
    disguised.Asks (disguisedOptions.map Prod.snd) disguisedInvocation
      (disguisedTokens.map Prod.snd ++ "--" :: ["--", "-W"]) where
  settings := by
    have table : ∀ k ∈ Key.all, select id k disguisedOptions = disguised.occurrences k := by decide
    exact ⟨disguisedOptions, rfl, fun k => table k k.mem_all⟩
  hookArgs := by rw [List.map_map]; rfl
  toolArgs token h := by
    have hnames : ∀ o ∈ Opt.all, o.long? ≠ some "fix" ∧ o.short? ≠ some 'x' := by decide
    have hwarning : "all" ∉ Opt.warning.choices := by decide
    simp only [disguisedInvocation, List.mem_cons, List.not_mem_nil, or_false] at h
    rcases h with rfl | rfl | rfl
    · exact Foreign.named "--" (by decide) fun o => (hnames o o.mem_all).1
    · exact Foreign.warning (by decide) hwarning
    · exact Foreign.letter "" (by decide) fun o => (hnames o o.mem_all).2
  files := by decide
  merged := by
    refine ⟨disguisedTokens.map Prod.snd, _, rfl, ⟨disguisedTokens, rfl, fun k => ?_⟩, .inr rfl⟩
    cases k <;> decide

theorem command_line_round_trip_disguised :
    Invocation.sort ["--linux=--", "a.c", "-Werror=dev", "-D=A=-DB=1", "--fix=--", "--no-diff",
        "-Wall", "--cmake=/usr/bin/cmake", "-D=--", "--source-dir=--source-dir=.", "", "-x",
        "--no-automatic-discovery", "--linux=-W", "--", "--", "-W"] = disguisedInvocation
      ∧ HookOptions.parse (· == "/usr/bin/cmake") (fun _ => none) disguisedInvocation.hookArgs =
        .ok { warnings := ["error=dev"], layer := disguised } := by
  have h := command_line_round_trip disguised_expressible disguised_asks
  obtain ⟨hsort, hparse⟩ := h
  have hwarnings : Reading.values { given := disguisedOptions.map Prod.snd } [.warning] =
      ["error=dev"] := by decide
  rw [hsort, hwarnings] at hparse
  exact ⟨hsort, hparse fun _ => none⟩

end Settings

end LintHooks
