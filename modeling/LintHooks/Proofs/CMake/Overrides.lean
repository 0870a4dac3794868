import LintHooks.CMake.Arguments
import LintHooks.Proofs.Options.RoundTrip
import LintHooks.Proofs.Settings.Precedence
set_option autoImplicit false

/-!
# CMake: what the command line overrides

CMake reads its arguments from left to right, and of two that contradict each other the later one
counts.  The arguments of a hook are in the order of their keys, whichever layer they come from: the
entries before what is removed, a warning before its opposite, and the arguments for the operating
system last.  So the command line has the last word about an entry among all entries, but a file can
still remove the entry, switch off a warning that was asked for, or have its say at the end.

The main result is `arguments_overrides`, for any files, any command line and any reading of the
texts in entries and expressions (`Texts`).  It rests on `arguments_eq`, which cuts the arguments
into their five parts.  Which warning is the last one is seen from the parts it can stand in
(`lastOf_arguments`).  What becomes of a variable is followed from part to part by reading the
arguments as CMake does (`Held.read`): entries set it (`read_defines`), removals take it away
(`read_undefines`), and the other parts leave it alone (`read_others`), which comes to
`value_arguments`.  Where the values come from is `merge_flags` and `merge_list`.  The three ways in
which a file prevails are `arguments_overridden`.
-/

namespace LintHooks.CMake

/-! ## Reading arguments -/

/-- The options that change the cache. -/
inductive CacheOption where
  | define | undefine
  deriving DecidableEq

/-- How the texts of these options are understood: the variable that an entry names with its value,
and the variables that an expression covers.  It is up to CMake, and nothing here depends on it. -/
structure Texts where
  entry : String → Option (String × String)
  covers : String → String → Bool

/-- The value that an entry gives to a variable. -/
def Texts.gives (t : Texts) (x text : String) : Option String :=
  (t.entry text).bind fun (name, value) => if name = x then some value else none

namespace CacheOption

/-- The option that an argument is, and the text that stands in it. -/
def ofArg? (arg : String) : Option (CacheOption × String) :=
  match arg.toList with
  | '-' :: 'D' :: text => some (.define, String.ofList text)
  | '-' :: 'U' :: text => some (.undefine, String.ofList text)
  | _ => none

/-- What an option with its text makes of the value of a variable. -/
def apply (t : Texts) (x : String) (value : Option String) : CacheOption → String → Option String
  | .define, text => (t.gives x text).or value
  | .undefine, text => if t.covers text x then none else value

end CacheOption

/-- What there is of a variable while arguments are read: its value, and an option whose text is yet
to come. -/
structure Held where
  value : Option String
  awaiting : Option CacheOption := none

namespace Held

variable (t : Texts) (x : String)

/-- Reads one argument.  An option without a text takes the next argument as its text, unless that
looks like an option. -/
def step (held : Held) (arg : String) : Held :=
  match CacheOption.ofArg? arg with
  | some (o, text) => ⟨o.apply t x held.value text, if text = "" then some o else none⟩
  | none =>
    match held.awaiting with
    | none => held
    | some o =>
      if arg.toList.head? = some '-' then ⟨held.value, none⟩
      else ⟨o.apply t x held.value arg, none⟩

/-- Reads arguments from left to right. -/
def read (held : Held) (args : List String) : Held := args.foldl (step t x) held

theorem read_append (held : Held) (args rest : List String) :
    held.read t x (args ++ rest) = (held.read t x args).read t x rest :=
  List.foldl_append

theorem step_define (held : Held) (text : String) :
    (held.step t x ("-D" ++ text)).value = (t.gives x text).or held.value := by
  simp [step, CacheOption.ofArg?, CacheOption.apply]

theorem step_undefine (held : Held) (text : String) :
    (held.step t x ("-U" ++ text)).value = if t.covers text x then none else held.value := by
  simp [step, CacheOption.ofArg?, CacheOption.apply]

/-- After some entries a variable has the value of the last one that names it. -/
theorem read_defines (texts : List String) (held : Held) :
    (held.read t x (texts.map ("-D" ++ ·))).value =
      (texts.filterMap (t.gives x)).getLast?.or held.value := by
  induction texts generalizing held with
  | nil => rfl
  | cons text texts ih =>
    rw [List.map_cons, read, List.foldl_cons, ← read, ih, step_define]
    cases hg : t.gives x text with
    | none => simp [hg]
    | some value => cases hl : (texts.filterMap (t.gives x)).getLast? <;>
        simp [hg, hl, List.getLast?_cons]

/-- After some removals a variable is gone if one of them covers it. -/
theorem read_undefines (texts : List String) (held : Held) :
    (held.read t x (texts.map ("-U" ++ ·))).value =
      if ∀ text ∈ texts, t.covers text x = false then held.value else none := by
  induction texts generalizing held with
  | nil => simp [read]
  | cons text texts ih =>
    rw [List.map_cons, read, List.foldl_cons, ← read, ih, step_undefine]
    by_cases hc : t.covers text x <;> simp [hc]

/-- Other options leave every variable alone. -/
theorem read_others {args : List String} (held : Held)
    (h : ∀ arg ∈ args, CacheOption.ofArg? arg = none ∧ arg.toList.head? = some '-') :
    (held.read t x args).value = held.value := by
  induction args generalizing held with
  | nil => rfl
  | cons arg args ih =>
    obtain ⟨hnone, hoption⟩ := h arg List.mem_cons_self
    have hstep : (held.step t x arg).value = held.value := by
      rw [step, hnone]
      cases held.awaiting <;> simp [hoption]
    rw [read, List.foldl_cons, ← read, ih _ fun a ha => h a (List.mem_cons_of_mem arg ha), hstep]

end Held

/-! ## The order of the arguments -/

/-- The arguments that change the cache: what is set, and then what is removed. -/
def changes (s : Settings) : List String :=
  ("CMAKE_EXPORT_COMPILE_COMMANDS:BOOL=ON" :: s.list .defines).map ("-D" ++ ·)
    ++ (s.list .undefines).map ("-U" ++ ·)

/-- The arguments that choose a way to build. -/
def choices (s : Settings) : List String :=
  textArg s .generator "-G" ++ textArg s .toolset "-T" ++ textArg s .platform "-A"
    ++ textArg s .preset "--preset="

/-- The argument for a warning. -/
def warningArg (k : FlagKey) : String := "-W" ++ k.word

/-- The arguments for two warnings. -/
def warnings (s : Settings) (first second : FlagKey) : List String :=
  flagArg s first (warningArg first) ++ flagArg s second (warningArg second)

/-- The arguments that are meant for an operating system, as they are handed on. -/
def platformArguments (s : Settings) (os : String) : List String :=
  (s.platformArgs os).map Text.withoutQuotes

theorem arguments_eq (s : Settings) (os : String) :
    arguments s os = changes s ++ (warnings s .devErrors .noDevErrors ++ (choices s
      ++ (warnings s .devWarnings .noDevWarnings ++ platformArguments s os))) := by
  simp [arguments, changes, choices, warnings, platformArguments, warningArg, FlagKey.word,
    exportDatabase]

/-- The second letter of the arguments that choose a way to build. -/
theorem letter_choices {s : Settings} {arg : String} (h : arg ∈ choices s) :
    ∃ c rest, arg.toList = '-' :: c :: rest ∧ c ∈ ['G', 'T', 'A', '-'] := by
  simp only [choices, textArg, List.mem_append, Option.mem_toList, Option.map_eq_some_iff] at h
  rcases h with ((⟨v, -, rfl⟩ | ⟨v, -, rfl⟩) | ⟨v, -, rfl⟩) | ⟨v, -, rfl⟩ <;>
    exact ⟨_, _, String.toList_append, by decide⟩

theorem mem_warnings {s : Settings} {first second : FlagKey} {arg : String}
    (h : arg ∈ warnings s first second) : arg = warningArg first ∨ arg = warningArg second := by
  simp only [warnings, flagArg, List.mem_append, List.mem_ite_nil_right, List.mem_singleton] at h
  exact h.imp And.right And.right

/-! ## Which warning is the last -/

/-- The warnings that contradict each other, the one that CMake is told first in front. -/
def opposites : List (FlagKey × FlagKey) :=
  [(.devWarnings, .noDevWarnings), (.devErrors, .noDevErrors)]

theorem opt_of_opposites {first second : FlagKey} (h : (first, second) ∈ opposites) :
    (Key.flag first).opt = .warning ∧ (Key.flag second).opt = .warning := by
  have table : ∀ p ∈ opposites, (Key.flag p.1).opt = .warning ∧ (Key.flag p.2).opt = .warning := by
    decide
  exact table _ h

/-- The last of two texts that stands in a list. -/
def lastOf (a b : String) (args : List String) : Option String :=
  (args.filter fun arg => arg = a ∨ arg = b).getLast?

theorem lastOf_append (a b : String) (args rest : List String) :
    lastOf a b (args ++ rest) = (lastOf a b rest).or (lastOf a b args) := by
  rw [lastOf, List.filter_append, List.getLast?_append]
  rfl

theorem lastOf_eq_none {a b : String} {args : List String}
    (h : ∀ arg ∈ args, arg ≠ a ∧ arg ≠ b) : lastOf a b args = none := by
  rw [lastOf, List.getLast?_eq_none_iff, List.filter_eq_nil_iff]
  intro arg harg
  simpa using h arg harg

theorem lastOf_warnings (s : Settings) (first second : FlagKey) :
    lastOf (warningArg first) (warningArg second) (warnings s first second) =
      if s.flag second then some (warningArg second)
      else if s.flag first then some (warningArg first)
      else none := by
  cases hs : s.flag second <;> cases hf : s.flag first <;> simp [lastOf, warnings, flagArg, hs, hf]

/-- Only a warning has the letter of a warning. -/
theorem lastOf_eq_none_of_letter {args : List String} (first second : FlagKey)
    (h : ∀ arg ∈ args, ∃ c rest, arg.toList = '-' :: c :: rest ∧ c ≠ 'W') :
    lastOf (warningArg first) (warningArg second) args = none := by
  have hne (k : FlagKey) : ∀ arg ∈ args, arg ≠ warningArg k := by
    rintro arg harg rfl
    obtain ⟨c, rest, heq, hc⟩ := h _ harg
    rw [warningArg, String.toList_append] at heq
    exact hc (List.cons.inj (List.cons.inj heq).2).1.symm
  exact lastOf_eq_none fun arg harg => ⟨hne first arg harg, hne second arg harg⟩

/-- Other warnings do not count. -/
theorem lastOf_other_warnings {a b first second : FlagKey} (s : Settings)
    (h : ∀ j ∈ [first, second], warningArg j ≠ warningArg a ∧ warningArg j ≠ warningArg b) :
    lastOf (warningArg a) (warningArg b) (warnings s first second) = none := by
  apply lastOf_eq_none
  intro arg harg
  rcases mem_warnings harg with rfl | rfl
  · exact h first (by simp)
  · exact h second (by simp)

/-- Of two opposite warnings the last one is among the arguments for the operating system, or else
it is the second one wherever that is set. -/
theorem lastOf_arguments {first second : FlagKey} (h : (first, second) ∈ opposites) (s : Settings)
    (os : String) :
    lastOf (warningArg first) (warningArg second) (arguments s os) =
      (lastOf (warningArg first) (warningArg second) (platformArguments s os)).or
        (if s.flag second then some (warningArg second)
        else if s.flag first then some (warningArg first)
        else none) := by
  have hchanges : lastOf (warningArg first) (warningArg second) (changes s) = none := by
    apply lastOf_eq_none_of_letter
    intro arg harg
    rcases List.mem_append.1 harg with harg | harg
    · obtain ⟨text, -, rfl⟩ := List.mem_map.1 harg
      exact ⟨_, _, String.toList_append, by decide⟩
    · obtain ⟨text, -, rfl⟩ := List.mem_map.1 harg
      exact ⟨_, _, String.toList_append, by decide⟩
  have hchoices : lastOf (warningArg first) (warningArg second) (choices s) = none := by
    apply lastOf_eq_none_of_letter
    intro arg harg
    obtain ⟨c, rest, heq, hc⟩ := letter_choices harg
    exact ⟨c, rest, heq, by rintro rfl; exact absurd hc (by decide)⟩
  rw [arguments_eq]
  simp only [lastOf_append, hchanges, hchoices]
  simp only [opposites, List.mem_cons, List.not_mem_nil, or_false, Prod.mk.injEq] at h
  rcases h with ⟨rfl, rfl⟩ | ⟨rfl, rfl⟩
  · rw [lastOf_warnings, lastOf_other_warnings s (by decide)]
    simp
  · rw [lastOf_warnings, lastOf_other_warnings s (by decide)]
    simp

/-! ## What a variable is in the end -/

/-- Arguments that leave a variable alone, whatever stands before them. -/
def LeaveAlone (t : Texts) (x : String) (args : List String) : Prop :=
  ∀ held : Held, (held.read t x args).value = held.value

/-- Options with other letters are not about variables. -/
theorem leaveAlone_of_letter {args : List String} (t : Texts) (x : String)
    (h : ∀ arg ∈ args, ∃ c rest, arg.toList = '-' :: c :: rest ∧ c ≠ 'D' ∧ c ≠ 'U') :
    LeaveAlone t x args := by
  intro held
  apply Held.read_others
  intro arg harg
  obtain ⟨c, rest, heq, hd, hu⟩ := h arg harg
  rw [CacheOption.ofArg?, heq]
  refine ⟨?_, rfl⟩
  split
  · next heq => exact absurd (List.cons.inj (List.cons.inj heq).2).1 hd
  · next heq => exact absurd (List.cons.inj (List.cons.inj heq).2).1 hu
  · rfl

theorem leaveAlone_warnings (t : Texts) (x : String) (s : Settings) (first second : FlagKey) :
    LeaveAlone t x (warnings s first second) := by
  apply leaveAlone_of_letter
  intro arg harg
  rcases mem_warnings harg with rfl | rfl <;>
    exact ⟨_, _, String.toList_append, by decide, by decide⟩

theorem leaveAlone_choices (t : Texts) (x : String) (s : Settings) :
    LeaveAlone t x (choices s) := by
  apply leaveAlone_of_letter
  intro arg harg
  obtain ⟨c, rest, heq, hc⟩ := letter_choices harg
  refine ⟨c, rest, heq, ?_, ?_⟩
  · rintro rfl
    exact absurd hc (by decide)
  · rintro rfl
    exact absurd hc (by decide)

/-- If the arguments for the operating system leave a variable alone, it has the value of the last
entry that names it, unless it is removed again. -/
theorem value_arguments (t : Texts) (x : String) (s : Settings) (os : String) (held : Held)
    {value : String} (hlast : ((s.list .defines).filterMap (t.gives x)).getLast? = some value)
    (hplatform : LeaveAlone t x (platformArguments s os)) :
    (held.read t x (arguments s os)).value =
      if ∀ text ∈ s.list .undefines, t.covers text x = false then some value else none := by
  have hentries : (("CMAKE_EXPORT_COMPILE_COMMANDS:BOOL=ON" :: s.list .defines).filterMap
      (t.gives x)).getLast? = some value := by
    rw [← List.singleton_append, List.filterMap_append, List.getLast?_append, hlast]
    rfl
  rw [arguments_eq]
  simp only [Held.read_append]
  rw [hplatform, leaveAlone_warnings, leaveAlone_choices, leaveAlone_warnings, changes,
    Held.read_append, Held.read_undefines, Held.read_defines, hentries]
  rfl

end LintHooks.CMake

namespace LintHooks

/-! ## Merged settings -/

/-- What the options say of a warning is whether it was given. -/
theorem HookOptions.parse_warning {executable : String → Bool} {env : String → Option String}
    {tokens : List String} {o : HookOptions} (h : parse executable env tokens = .ok o)
    {k : FlagKey} (hk : (Key.flag k).opt = .warning) :
    o.layer.flags k = given (o.warnings.contains k.word) := by
  rw [parse] at h
  cases hrun : Reading.run executable tokens with
  | error e =>
    rw [hrun] at h
    cases h
  | ok r =>
    rw [hrun] at h
    cases hverbose : verbosity r env with
    | error e =>
      simp only [bind, Except.bind, hverbose] at h
      cases h
    | ok verbose =>
      simp only [bind, Except.bind, hverbose] at h
      cases h
      cases k <;> first | rfl | cases hk

namespace Settings

/-- A flag comes from the command line, or else from the uppermost file that sets it. -/
theorem merge_flags (files : List Settings) (cli : Settings) (k : FlagKey) :
    (merge files cli).flags k =
      (cli.flags k).or (files.reverse.findSome? fun layer => layer.flags k) := by
  have hfiles : (files.foldl overlay {}).flags k =
      files.reverse.findSome? fun layer => layer.flags k := by
    have h := foldl_overlay (·.flags k) (fun _ _ => rfl) (files.map some) {}
    rw [List.filterMap_map, firstSet, ← List.map_reverse, List.findSome?_map] at h
    simpa [Function.comp_def] using h
  rw [← hfiles]
  exact Option.orElse_eq_or

/-- A list of the command line stands behind what the files say. -/
theorem merge_list (files : List Settings) (cli : Settings) (k : ListKey) :
    (merge files cli).list k = (files.foldl overlay {}).list k ++ cli.list k := by
  have hlists : (merge files cli).lists k =
      extendList ((files.foldl overlay {}).lists k) (cli.lists k) := rfl
  rw [list, hlists]
  cases hcli : cli.lists k <;> simp [extendList, list, hcli]

end Settings

namespace CMake

/-! ## The command line -/

/-- The last entry of some settings that names a variable gives it a value. -/
def LastEntry (t : Texts) (x value : String) (s : Settings) : Prop :=
  ((s.list .defines).filterMap (t.gives x)).getLast? = some value

/-- What becomes of the options of a command line above some files. -/
structure Overrides (o : HookOptions) (files : List Settings) (os : String) (s : Settings) :
    Prop where
  /-- The second of two warnings prevails over whatever the files say. -/
  second : ∀ p ∈ opposites, p.2.word ∈ o.warnings →
    lastOf (warningArg p.1) (warningArg p.2) (arguments s os) =
      (lastOf (warningArg p.1) (warningArg p.2) (platformArguments s os)).or
        (some (warningArg p.2))
  /-- The first one prevails unless the uppermost file that speaks of the second one sets it. -/
  first : ∀ p ∈ opposites, p.1.word ∈ o.warnings → p.2.word ∉ o.warnings →
    lastOf (warningArg p.1) (warningArg p.2) (arguments s os) =
      (lastOf (warningArg p.1) (warningArg p.2) (platformArguments s os)).or
        (some (warningArg
          (if (files.reverse.findSome? fun layer => layer.flags p.2) = some true then p.2
          else p.1)))
  /-- An entry prevails over those of the files, and it stays unless it is removed. -/
  entry : ∀ t x value init, LastEntry t x value o.layer →
    LeaveAlone t x (platformArguments s os) →
    ((Held.read t x ⟨init, none⟩ (arguments s os)).value = some value ↔
      ∀ text ∈ s.list .undefines, t.covers text x = false)

/-- Whatever the files and the command line say, the options of the command line prevail as far as
the order of the keys lets them. -/
theorem arguments_overrides {executable : String → Bool} {env : String → Option String}
    {tokens : List String} {o : HookOptions}
    (h : HookOptions.parse executable env tokens = .ok o) (files : List Settings) (os : String) :
    Overrides o files os (Settings.merge files o.layer) where
  second := by
    rintro ⟨first, second⟩ hp hsecond
    have hflag : (Settings.merge files o.layer).flag second = true := by
      rw [Settings.flag, Settings.merge_flags, HookOptions.parse_warning h (opt_of_opposites hp).2,
        List.contains_iff_mem.2 hsecond]
      rfl
    rw [lastOf_arguments hp, hflag]
    rfl
  first := by
    rintro ⟨first, second⟩ hp hfirst hsecond
    have hflag : (Settings.merge files o.layer).flag first = true := by
      rw [Settings.flag, Settings.merge_flags, HookOptions.parse_warning h (opt_of_opposites hp).1,
        List.contains_iff_mem.2 hfirst]
      rfl
    have hbelow : (Settings.merge files o.layer).flag second =
        ((files.reverse.findSome? fun layer => layer.flags second).getD false) := by
      have hnone : o.warnings.contains second.word = false :=
        Bool.eq_false_iff.2 fun hc => hsecond (List.contains_iff_mem.1 hc)
      rw [Settings.flag, Settings.merge_flags, HookOptions.parse_warning h (opt_of_opposites hp).2,
        hnone]
      rfl
    rw [lastOf_arguments hp, hflag, hbelow]
    cases files.reverse.findSome? fun layer => layer.flags second with
    | none => rfl
    | some v => cases v <;> rfl
  entry := by
    intro t x value init hlast hplatform
    have hmerged : LastEntry t x value (Settings.merge files o.layer) := by
      rw [LastEntry, Settings.merge_list, List.filterMap_append, List.getLast?_append, hlast]
      rfl
    rw [value_arguments t x _ os _ hmerged hplatform]
    split
    · next hnone => exact ⟨fun _ => hnone, fun _ => rfl⟩
    · next hsome => exact ⟨nofun, fun hnone => absurd hnone hsome⟩

/-! ### Files that contradict a command line -/

/-- Entries are `KEY[:TYPE]=VALUE`, and expressions have no wildcards. -/
def plainTexts : Texts where
  entry text := (Text.cut? '=' text.toList).map fun (key, value) =>
    (String.ofList (key.takeWhile (· ≠ ':')), String.ofList value)
  covers text x := text = x

/-- Files that set what the command line sets, and more that does not matter for it. -/
def contradicting : List Settings :=
  [Settings.setFlag {} .noDevErrors (some true),
   { flags := fun
      | .devWarnings => some true
      | .noDevErrors => some false
      | _ => none
     lists := fun
      | .defines => some ["X=W", "Y=1"]
      | .undefines => some ["Y"]
      | .linux => some ["-D", "Y=2"]
      | _ => none }]

/-- The arguments for Linux that a command line gives. -/
theorem list_layerOf_linux (r : Reading) :
    (HookOptions.layerOf r).list .linux = r.values [.unix, .linux] := by
  have hlists : (HookOptions.layerOf r).lists .linux =
      HookOptions.nonEmpty (r.values [.unix, .linux]) :=
    congrArg HookOptions.nonEmpty (r.platformValues_eq (by decide))
  rw [Settings.list, hlists]
  cases r.values [.unix, .linux] <;> rfl

/-- Options that do not speak of Linux leave its arguments to the files. -/
theorem platformArguments_merge (files : List Settings) {r : Reading}
    (h : r.values [.unix, .linux] = []) :
    platformArguments (Settings.merge files (HookOptions.layerOf r)) "linux" =
      platformArguments (Settings.merge files {}) "linux" := by
  have hlinux : (HookOptions.layerOf r).list .linux = [] := (list_layerOf_linux r).trans h
  have hunix : (HookOptions.layerOf r).list .unix = [] := rfl
  simp only [platformArguments, Settings.platformArgs, Settings.merge_list, hlinux, hunix]
  rfl

theorem arguments_overrides_contradicting :
    ∃ o, HookOptions.parse (fun _ => true) (fun _ => none)
        ["-Wno-dev", "-DX:STRING=V", "-W", "error=dev"] = .ok o ∧
      lastOf "-Wdev" "-Wno-dev" (arguments (Settings.merge contradicting o.layer) "linux") =
        some "-Wno-dev" ∧
      lastOf "-Werror=dev" "-Wno-error=dev"
        (arguments (Settings.merge contradicting o.layer) "linux") = some "-Werror=dev" ∧
      (Held.read plainTexts "X" ⟨none, none⟩
        (arguments (Settings.merge contradicting o.layer) "linux")).value = some "V" := by
  have hrun : Reading.run (fun _ => true) ["-Wno-dev", "-DX:STRING=V", "-W", "error=dev"] = .ok
      { given := [⟨.warning, "no-dev"⟩, ⟨.define, "X:STRING=V"⟩, ⟨.warning, "error=dev"⟩] } := rfl
  obtain ⟨o, hparse, hwarnings, hlayer⟩ : ∃ o, HookOptions.parse (fun _ => true) (fun _ => none)
      ["-Wno-dev", "-DX:STRING=V", "-W", "error=dev"] = .ok o ∧
      o.warnings = ["no-dev", "error=dev"] ∧ o.layer = HookOptions.layerOf
        { given := [⟨.warning, "no-dev"⟩, ⟨.define, "X:STRING=V"⟩, ⟨.warning, "error=dev"⟩] } := by
    rw [HookOptions.parse, hrun]
    exact ⟨_, rfl, rfl, rfl⟩
  have h := arguments_overrides hparse contradicting "linux"
  have hplatform : platformArguments (Settings.merge contradicting o.layer) "linux" =
      ["-D", "Y=2"] := by
    rw [hlayer, platformArguments_merge contradicting rfl]
    decide
  refine ⟨o, hparse, ?_, ?_, ?_⟩
  · refine (h.second (.devWarnings, .noDevWarnings) (by decide) ?_).trans ?_
    · rw [hwarnings]
      decide
    · rw [hplatform]
      decide
  · refine (h.first (.devErrors, .noDevErrors) (by decide) ?_ ?_).trans ?_
    · rw [hwarnings]
      decide
    · rw [hwarnings]
      decide
    · rw [hplatform]
      decide
  · refine (h.entry plainTexts "X" "V" none ?_ ?_).2 ?_
    · rw [LastEntry, hlayer]
      decide
    · intro held
      rw [hplatform]
      rfl
    · rw [hlayer]
      decide

/-- The three ways in which a file overrides the command line. -/
theorem arguments_overridden :
    ∃ o, HookOptions.parse (fun _ => true) (fun _ => none) ["-Wdev", "-DX=V"] = .ok o ∧
      "dev" ∈ o.warnings ∧ "no-dev" ∉ o.warnings ∧ LastEntry plainTexts "X" "V" o.layer ∧
      o.layer.list .undefines = [] ∧ o.layer.platformArgs "linux" = [] ∧
      lastOf "-Wdev" "-Wno-dev" (arguments
        (Settings.merge [Settings.setFlag {} .noDevWarnings (some true)] o.layer) "linux") =
          some "-Wno-dev" ∧
      (Held.read plainTexts "X" ⟨none, none⟩ (arguments
        (Settings.merge [Settings.setList {} .undefines (some ["X"])] o.layer) "linux")).value =
          none ∧
      (Held.read plainTexts "X" ⟨none, none⟩ (arguments
        (Settings.merge [Settings.setList {} .linux (some ["-DX=W"])] o.layer) "linux")).value =
          some "W" := by
  have hrun : Reading.run (fun _ => true) ["-Wdev", "-DX=V"] =
      .ok { given := [⟨.warning, "dev"⟩, ⟨.define, "X=V"⟩] } := rfl
  obtain ⟨o, hparse, hwarnings, hlayer⟩ : ∃ o, HookOptions.parse (fun _ => true) (fun _ => none)
      ["-Wdev", "-DX=V"] = .ok o ∧ o.warnings = ["dev"] ∧
      o.layer = HookOptions.layerOf { given := [⟨.warning, "dev"⟩, ⟨.define, "X=V"⟩] } := by
    rw [HookOptions.parse, hrun]
    exact ⟨_, rfl, rfl, rfl⟩
  have hplatform (files : List Settings) :
      platformArguments (Settings.merge files o.layer) "linux" =
        platformArguments (Settings.merge files {}) "linux" := by
    rw [hlayer, platformArguments_merge files rfl]
  refine ⟨o, hparse, ?_, ?_, ?_, ?_, ?_, ?_, ?_, ?_⟩
  · rw [hwarnings]
    decide
  · rw [hwarnings]
    decide
  · rw [LastEntry, hlayer]
    decide
  · rw [hlayer]
    decide
  · rw [hlayer]
    exact list_layerOf_linux _
  · rw [arguments_eq, hplatform, hlayer]
    decide
  · rw [arguments_eq, hplatform, hlayer]
    decide
  · rw [arguments_eq, hplatform, hlayer]
    decide

end CMake

end LintHooks
