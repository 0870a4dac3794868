import LintHooks.Options.Invocation
set_option autoImplicit false

/-!
# Options: where the tokens of a command line go

Sorting takes one or two tokens at a time from a command line.  `sort_induction` says
once what each of its ways of going on does, and the rest follows from it: no token is
lost or moved, the separator is found where it should be, and each stream sorted on
its own stays what it is.

A token goes the same way wherever it stands, with one exception: a letter of the hook
without a value looks at the token after it (`owner_eq`).  So the streams need two facts
about neighbors.  A letter that was refused the token after it refuses every option,
because only the warnings refuse anything and what they accept never begins with a
hyphen; and a letter with nothing after it is the last one of its stream, too.

The main result is `sort_streams`, put together from one lemma for each stream (`sort_hookArgs`,
`sort_toolArgs`, `sort_files`).  The latter are inductions along `sort_induction`, with an equation
for each way of going on (`sort_separator`, `sort_file`, `sort_tool`, `sort_whole`, `sort_refused`,
`sort_pair`, `sort_dangling`); that a letter is refused in its stream as well is `refused_toolArgs`.
-/

namespace LintHooks

/-! ## Words -/

theorem Word.ofToken_eq_separator_iff {token : String} :
    Word.ofToken token = .separator ↔ token = "--" := by
  constructor
  · intro h
    unfold Word.ofToken at h
    split at h
    · next ht => exact String.toList_injective ht
    · split at h <;> cases h
    · cases h
    · cases h
  · rintro rfl
    rfl

theorem Opt.mem_choices_of_accepts {o : Opt} {value : String} (hc : o.choices ≠ [])
    (h : o.accepts value = true) : value ∈ o.choices := by
  rw [Opt.accepts, Bool.or_eq_true, List.isEmpty_iff, List.contains_iff_mem] at h
  exact h.resolve_left hc

/-- Only the warnings are choosy, and what they accept is no option. -/
theorem Opt.ofToken_of_accepts {o : Opt} {value : String} (hc : o.choices ≠ [])
    (h : o.accepts value = true) : Word.ofToken value = .plain := by
  have hmem := Opt.mem_choices_of_accepts hc h
  have hplain : ∀ o ∈ Opt.all, ∀ v ∈ o.choices, Word.ofToken v = .plain := by decide
  exact hplain o (Opt.mem_all o) value hmem

theorem Opt.choices_ne_nil_of_not_accepts {o : Opt} {value : String}
    (h : o.accepts value = false) : o.choices ≠ [] := by
  intro hc
  rw [Opt.accepts, hc] at h
  cases h

namespace Invocation

variable {token value : String} {rest : List String} {next : Option String}

/-! ## Tokens by themselves -/

/-- What a token is by itself. -/
inductive Kind where
  | separator
  | file
  | tool
  /-- An option of the hook that needs no other token. -/
  | whole
  /-- A long option of the hook that takes the next token as its value. -/
  | awaiting
  /-- A letter of the hook that takes the next token if it accepts it as its value. -/
  | letter (o : Opt)
  deriving DecidableEq, Repr

/-- What a token is by itself. -/
def kindOf (token : String) : Kind :=
  match Word.ofToken token with
  | .separator => .separator
  | .plain => .file
  | .long name value =>
    match Opt.ofLong? name with
    | none => .tool
    | some o => if o.takesValue && value.isNone then .awaiting else .whole
  | .short letter attached =>
    match Opt.ofShort? letter with
    | none => .tool
    | some o =>
      if !o.takesValue then if attached = "" then .whole else .tool
      else if attached ≠ "" then if o.accepts attached then .whole else .tool
      else .letter o

/-- Where a token of some kind goes that has a token after it. -/
def Kind.owner (next : Option String) : Kind → Owner
  | .separator => .separator
  | .file => .file
  | .tool => .tool
  | .whole => .hook
  | .awaiting => .hookWithNext
  | .letter o => if next.any o.accepts then .hookWithNext else .tool

/-- The next token matters to a letter only. -/
theorem owner_eq (token : String) (next : Option String) :
    owner token next = (kindOf token).owner next := by
  unfold owner kindOf
  cases Word.ofToken token with
  | separator => rfl
  | plain => rfl
  | long name value =>
    dsimp only
    cases Opt.ofLong? name with
    | none => rfl
    | some o =>
      dsimp only
      split <;> rfl
  | short letter attached =>
    dsimp only
    cases Opt.ofShort? letter with
    | none => rfl
    | some o =>
      dsimp only
      split
      · split <;> rfl
      split
      · split <;> rfl
      · rfl

/-- What looks like an option is neither a separator nor a file. -/
theorem kindOf_of_option (hs : Word.ofToken token ≠ .separator) (hp : Word.ofToken token ≠ .plain) :
    kindOf token ≠ .separator ∧ kindOf token ≠ .file := by
  unfold kindOf
  cases hw : Word.ofToken token with
  | separator => exact absurd hw hs
  | plain => exact absurd hw hp
  | long name value =>
    dsimp only
    repeat' split
    all_goals exact ⟨nofun, nofun⟩
  | short letter attached =>
    dsimp only
    repeat' split
    all_goals exact ⟨nofun, nofun⟩

theorem kindOf_eq_separator_iff : kindOf token = .separator ↔ token = "--" := by
  constructor
  · intro h
    apply Word.ofToken_eq_separator_iff.1
    apply Classical.byContradiction
    intro hs
    by_cases hp : Word.ofToken token = .plain
    · rw [kindOf, hp] at h
      cases h
    · exact (kindOf_of_option hs hp).1 h
  · rintro rfl
    rfl

theorem kindOf_eq_file_iff : kindOf token = .file ↔ Word.ofToken token = .plain := by
  constructor
  · intro h
    apply Classical.byContradiction
    intro hp
    by_cases hs : Word.ofToken token = .separator
    · rw [kindOf, hs] at h
      cases h
    · exact (kindOf_of_option hs hp).2 h
  · intro h
    rw [kindOf, h]

/-- An option of the hook that takes a value and stands without one. -/
def awaitsValue (token : String) : Bool :=
  match Word.ofToken token with
  | .long name none => (Opt.ofLong? name).any Opt.takesValue
  | .short letter attached => attached = "" && (Opt.ofShort? letter).any Opt.takesValue
  | _ => false

theorem awaitsValue_iff :
    awaitsValue token = true ↔ kindOf token = .awaiting ∨ ∃ o, kindOf token = .letter o := by
  unfold awaitsValue kindOf
  cases Word.ofToken token with
  | separator => simp
  | plain => simp
  | long name value =>
    cases hl : Opt.ofLong? name with
    | none => cases value <;> simp [hl]
    | some o => cases value <;> cases ht : o.takesValue <;> simp [hl, ht]
  | short letter attached =>
    cases hl : Opt.ofShort? letter with
    | none => simp [hl]
    | some o =>
      cases ht : o.takesValue <;> by_cases ha : attached = "" <;>
        cases hc : o.accepts attached <;> simp [hl, ht, ha, hc]

/-! ## One step of sorting -/

/-- What sorting does with the first token depends on its kind and the token after it. -/
theorem sort_cons (token : String) (rest : List String) :
    sort (token :: rest) =
      match (kindOf token).owner rest.head? with
      | .separator => { ddash := rest }
      | .hook => (sort rest).forHook [token]
      | .hookWithNext =>
        match rest with
        | [] => { hookArgs := [token] }
        | value :: more => (sort more).forHook [token, value]
      | .tool => (sort rest).forTool token
      | .file => (sort rest).forFile token := by
  rw [← owner_eq]
  exact sort.eq_def (token :: rest)

theorem sort_separator (rest : List String) : sort ("--" :: rest) = { ddash := rest } := by
  rw [sort_cons, kindOf_eq_separator_iff.2 rfl]
  rfl

theorem sort_file (h : kindOf token = .file) (rest : List String) :
    sort (token :: rest) = (sort rest).forFile token := by
  rw [sort_cons, h]
  rfl

theorem sort_tool (h : kindOf token = .tool) (rest : List String) :
    sort (token :: rest) = (sort rest).forTool token := by
  rw [sort_cons, h]
  rfl

theorem sort_whole (h : kindOf token = .whole) (rest : List String) :
    sort (token :: rest) = (sort rest).forHook [token] := by
  rw [sort_cons, h]
  rfl

theorem sort_refused {o : Opt} (h : kindOf token = .letter o)
    (hr : rest.head?.any o.accepts = false) :
    sort (token :: rest) = (sort rest).forTool token := by
  rw [sort_cons, h, Kind.owner, hr]
  rfl

/-- Whether a token of some kind takes the token after it along. -/
def Kind.takesAlong (value : String) : Kind → Bool
  | .awaiting => true
  | .letter o => o.accepts value
  | _ => false

theorem sort_pair (h : (kindOf token).takesAlong value = true) (rest : List String) :
    sort (token :: value :: rest) = (sort rest).forHook [token, value] := by
  have ho : (kindOf token).owner (some value) = .hookWithNext := by
    cases hk : kindOf token with
    | awaiting => rfl
    | letter o =>
      rw [hk, Kind.takesAlong] at h
      rw [Kind.owner, Option.any_some, h]
      rfl
    | _ =>
      rw [hk] at h
      cases h
  rw [sort_cons, List.head?_cons, ho]

theorem sort_dangling (h : kindOf token = .awaiting) : sort [token] = { hookArgs := [token] } := by
  rw [sort_cons, h]
  rfl

/-- The ways in which sorting goes on.  What holds of the end, and of a command line whenever it
holds of what is left behind its first token or its first two, holds of every command line. -/
@[elab_as_elim]
theorem sort_induction {motive : List String → Prop}
    (nil : motive [])
    (separator : ∀ rest, motive ("--" :: rest))
    (file : ∀ token rest, kindOf token = .file → motive rest → motive (token :: rest))
    (tool : ∀ token rest, kindOf token = .tool → motive rest → motive (token :: rest))
    (refused : ∀ token rest o, kindOf token = .letter o → rest.head?.any o.accepts = false →
      motive rest → motive (token :: rest))
    (whole : ∀ token rest, kindOf token = .whole → motive rest → motive (token :: rest))
    (pair : ∀ token value rest, (kindOf token).takesAlong value = true → motive rest →
      motive (token :: value :: rest))
    (dangling : ∀ token, kindOf token = .awaiting → motive [token])
    (args : List String) : motive args := by
  -- A step may take two tokens, so the induction is on a bound of the length.
  suffices h : ∀ n, ∀ args : List String, args.length ≤ n → motive args from
    h args.length args (Nat.le_refl _)
  intro n
  induction n with
  | zero =>
    intro args hn
    obtain rfl := List.length_eq_zero_iff.1 (Nat.le_zero.1 hn)
    exact nil
  | succ n ih =>
    intro args hn
    match args, hn with
    | [], _ => exact nil
    | token :: rest, hn =>
      have hrest := ih rest (Nat.le_of_succ_le_succ hn)
      cases hk : kindOf token with
      | separator =>
        obtain rfl := kindOf_eq_separator_iff.1 hk
        exact separator rest
      | file => exact file token rest hk hrest
      | tool => exact tool token rest hk hrest
      | whole => exact whole token rest hk hrest
      | awaiting =>
        match rest, hn with
        | [], _ => exact dangling token hk
        | value :: more, hn =>
          have hmore := ih more (by simp only [List.length_cons] at hn; omega)
          exact pair token value more (by rw [hk]; rfl) hmore
      | letter o =>
        cases hr : rest.head?.any o.accepts with
        | false => exact refused token rest o hk hr hrest
        | true =>
          match rest, hn, hr with
          | value :: more, hn, hr =>
            have hmore := ih more (by simp only [List.length_cons] at hn; omega)
            exact pair token value more (by rw [hk]; exact hr) hmore

/-! ## Streams on their own -/

variable {args : List String}

theorem sort_hookArgs (args : List String) :
    sort (sort args).hookArgs = { hookArgs := (sort args).hookArgs } := by
  induction args using sort_induction with
  | nil => rfl
  | separator rest =>
    rw [sort_separator]
    rfl
  | file token rest hk ih =>
    rw [sort_file hk]
    exact ih
  | tool token rest hk ih =>
    rw [sort_tool hk]
    exact ih
  | refused token rest o hk hr ih =>
    rw [sort_refused hk hr]
    exact ih
  | whole token rest hk ih =>
    rw [sort_whole hk]
    exact (sort_whole hk _).trans (congrArg (forHook [token]) ih)
  | pair token value rest hk ih =>
    rw [sort_pair hk]
    exact (sort_pair hk _).trans (congrArg (forHook [token, value]) ih)
  | dangling token hk =>
    rw [sort_dangling hk]
    exact sort_dangling hk

/-- An option of the tool does not look like a file. -/
theorem not_plain_of_mem_toolArgs (h : token ∈ (sort args).toolArgs) :
    Word.ofToken token ≠ .plain := by
  have option {t : String} (hf : kindOf t ≠ .file) : Word.ofToken t ≠ .plain := fun hp =>
    hf (kindOf_eq_file_iff.2 hp)
  induction args using sort_induction with
  | nil => cases h
  | separator rest =>
    rw [sort_separator] at h
    cases h
  | file t rest hk ih =>
    rw [sort_file hk] at h
    exact ih h
  | tool t rest hk ih =>
    rw [sort_tool hk] at h
    rcases List.mem_cons.1 h with rfl | h
    · exact option (by rw [hk]; nofun)
    · exact ih h
  | refused t rest o hk hr ih =>
    rw [sort_refused hk hr] at h
    rcases List.mem_cons.1 h with rfl | h
    · exact option (by rw [hk]; nofun)
    · exact ih h
  | whole t rest hk ih =>
    rw [sort_whole hk] at h
    exact ih h
  | pair t value rest hk ih =>
    rw [sort_pair hk] at h
    exact ih h
  | dangling t hk =>
    rw [sort_dangling hk] at h
    cases h

/-- A letter that was refused the token after it is refused the options of the tool as well. -/
theorem refused_toolArgs {o : Opt} (h : args.head?.any o.accepts = false) :
    (sort args).toolArgs.head?.any o.accepts = false := by
  cases hs : (sort args).toolArgs with
  | nil => rfl
  | cons next more =>
    cases hargs : args with
    | nil =>
      rw [hargs, sort] at hs
      cases hs
    | cons token rest =>
      rw [hargs, List.head?_cons, Option.any_some] at h
      rw [List.head?_cons, Option.any_some]
      have hmem : next ∈ (sort args).toolArgs := hs ▸ List.mem_cons_self
      have hplain : Word.ofToken next ≠ .plain := not_plain_of_mem_toolArgs hmem
      -- Having refused a token the option has choices, and none of these looks like an option.
      have hchoices : o.choices ≠ [] := Opt.choices_ne_nil_of_not_accepts h
      apply Bool.eq_false_iff.2
      intro ha
      exact hplain (Opt.ofToken_of_accepts hchoices ha)

theorem sort_toolArgs (args : List String) :
    sort (sort args).toolArgs = { toolArgs := (sort args).toolArgs } := by
  induction args using sort_induction with
  | nil => rfl
  | separator rest =>
    rw [sort_separator]
    rfl
  | file token rest hk ih =>
    rw [sort_file hk]
    exact ih
  | tool token rest hk ih =>
    rw [sort_tool hk]
    exact (sort_tool hk _).trans (congrArg (forTool token) ih)
  | refused token rest o hk hr ih =>
    rw [sort_refused hk hr]
    exact (sort_refused hk (refused_toolArgs hr)).trans (congrArg (forTool token) ih)
  | whole token rest hk ih =>
    rw [sort_whole hk]
    exact ih
  | pair token value rest hk ih =>
    rw [sort_pair hk]
    exact ih
  | dangling token hk =>
    rw [sort_dangling hk]
    rfl

theorem sort_files (args : List String) :
    sort (sort args).files = { files := (sort args).files } := by
  induction args using sort_induction with
  | nil => rfl
  | separator rest =>
    rw [sort_separator]
    rfl
  | file token rest hk ih =>
    rw [sort_file hk]
    exact (sort_file hk _).trans (congrArg (forFile token) ih)
  | tool token rest hk ih =>
    rw [sort_tool hk]
    exact ih
  | refused token rest o hk hr ih =>
    rw [sort_refused hk hr]
    exact ih
  | whole token rest hk ih =>
    rw [sort_whole hk]
    exact ih
  | pair token value rest hk ih =>
    rw [sort_pair hk]
    exact ih
  | dangling token hk =>
    rw [sort_dangling hk]
    rfl

/-- Each stream is sorted on its own as it was in the command line that it comes from. -/
theorem sort_streams (args : List String) :
    sort (sort args).hookArgs = { hookArgs := (sort args).hookArgs }
      ∧ sort (sort args).toolArgs = { toolArgs := (sort args).toolArgs }
      ∧ sort (sort args).files = { files := (sort args).files } :=
  ⟨sort_hookArgs args, sort_toolArgs args, sort_files args⟩

end Invocation

end LintHooks
