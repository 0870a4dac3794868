import LintHooks.Host.Basic
import LintHooks.Proofs.Options.Acceptance
set_option autoImplicit false

/-!
# Options: faults of a command line

What can be wrong with the hook's part of a command line is a handful of faults (`Faulty`), as
long as no value that stands in a token of its own looks like an option.  Unknown tokens and refused
warnings are not among them, because sorting leaves these to the tool.

The main result is `parse_sort_error_iff`.  Its parts are `Spells.run`, for tokens that spell
options, and `verbosity_error_iff`, for the variable that may stand in for one.  Accepting options
one by one comes to all of them being `Sound` and given `Once` (`acceptAll_eq_some_iff`), and that
is the same as there being no fault (`Spells.not_faulty_iff`).  That an option without its value can
only be the last one is known from the spelling (`Spells.getLast?`).
-/

namespace LintHooks

/-! ## Faults -/

/-- What can be wrong with the options of a command line, apart from an environment that stands in
for one of them.  `executable` tells which paths can be run. -/
inductive Faulty (executable : String → Bool) (ms : List Mention) : Prop where
  | help {m : Mention} : m ∈ ms → m.opt = .help → Faulty executable ms
  /-- An option is given twice that may be given once. -/
  | repeated {o : Opt} : o.repeatable = false → 1 < (ms.filter fun m => m.opt == o).length →
    Faulty executable ms
  /-- A flag has a value. -/
  | flagValue {m : Mention} : m ∈ ms → m.opt.takesValue = false → m.own.isSome = true →
    Faulty executable ms
  /-- A long option at the very end lacks its value. -/
  | noValue {m : Mention} {name : String} : ms.getLast? = some m → m.opt.takesValue = true →
    m.value = none → Word.ofToken m.token = .long name none → Faulty executable ms
  | emptyValue {m : Mention} : m ∈ ms → m.opt.refusesEmpty = true → m.value = some "" →
    Faulty executable ms
  /-- CMake cannot be run. -/
  | notExecutable {m : Mention} {path : String} : m ∈ ms → m.opt = .cmake →
    m.value = some path → executable path = false → Faulty executable ms

namespace Mention

/-- Nothing is wrong with an option by itself. -/
structure Sound (executable : String → Bool) (m : Mention) : Prop where
  notHelp : m.opt ≠ .help
  bare : m.opt.takesValue = false → m.own = none
  valued : m.opt.takesValue = true → m.value ≠ none
  nonEmpty : m.opt.refusesEmpty = true → m.value ≠ some ""
  runs : m.opt = .cmake → ∀ v, m.value = some v → executable v = true

/-- An option as sorting leaves it: flags take nothing along, and values are accepted. -/
structure Formed (m : Mention) : Prop where
  next : m.opt.takesValue = false → m.next = none
  accepted : ∀ v, m.value = some v → m.opt.accepts v = true

variable {executable : String → Bool} {m : Mention}

theorem Formed.value_eq_none (hf : m.Formed) (hs : m.Sound executable)
    (ht : m.opt.takesValue = false) : m.value = none := by
  rw [value, hs.bare ht, hf.next ht]
  rfl

theorem Formed.valid (hf : m.Formed) (hs : m.Sound executable) : m.occurrence.Valid executable := by
  have flags : ∀ o ∈ Opt.all, o.takesValue = false →
      o.refusesEmpty = false ∧ o.choices = [] ∧ o ≠ .cmake := by decide
  cases ht : m.opt.takesValue with
  | false =>
    have hv : m.occurrence.value = "" := by rw [occurrence, hf.value_eq_none hs ht]; rfl
    obtain ⟨hempty, hchoices, hcmake⟩ := flags m.opt m.opt.mem_all ht
    exact
      { notHelp := hs.notHelp
        flag := fun _ => hv
        nonEmpty := fun h => absurd (hempty.symm.trans h) Bool.false_ne_true
        accepted := Opt.accepts_of_choices hchoices _
        executable := fun h => absurd h hcmake }
  | true =>
    obtain ⟨v, hv⟩ := Option.ne_none_iff_exists'.1 (hs.valued ht)
    have hvalue : m.occurrence.value = v := by rw [occurrence, hv]; rfl
    exact
      { notHelp := hs.notHelp
        flag := fun h => absurd (h.symm.trans ht) Bool.false_ne_true
        nonEmpty := fun h he => hs.nonEmpty h (hv.trans (congrArg some (hvalue.symm.trans he)))
        accepted := hvalue ▸ hf.accepted v hv
        executable := fun h => hvalue ▸ hs.runs h v hv }

theorem Formed.value?_eq (hf : m.Formed) (hs : m.Sound executable) :
    m.occurrence.value? = m.value := by
  rw [Occurrence.value?]
  split
  · next ht =>
    obtain ⟨v, hv⟩ := Option.ne_none_iff_exists'.1 (hs.valued ht)
    rw [occurrence, hv]
    rfl
  · next ht => exact (hf.value_eq_none hs (Bool.eq_false_iff.2 ht)).symm

end Mention

theorem Spells.formed {tokens : List String} {ms : List Mention} (h : Spells tokens ms) :
    ∀ m ∈ ms, m.Formed := by
  induction h with
  | nil => exact nofun
  | @whole token o own _ _ _ _ ha _ ih =>
    refine List.forall_mem_cons.2 ⟨⟨fun _ => rfl, fun v hv => ha v ?_⟩, ih⟩
    cases own with
    | none => cases hv
    | some w => exact hv
  | pair _ ht ha _ ih =>
    refine List.forall_mem_cons.2 ⟨⟨fun hf => ?_, fun v hv => ?_⟩, ih⟩
    · exact absurd (hf.symm.trans ht) Bool.false_ne_true
    · cases hv
      exact ha
  | dangling _ ht _ _ =>
    refine List.forall_mem_singleton.2 ⟨fun hf => ?_, nofun⟩
    exact absurd (hf.symm.trans ht) Bool.false_ne_true

/-- Only a long option at the very end lacks its value. -/
theorem Spells.getLast? {tokens : List String} {ms : List Mention} (h : Spells tokens ms)
    {m : Mention} (hm : m ∈ ms) (ht : m.opt.takesValue = true) (hv : m.value = none) :
    ms.getLast? = some m ∧ ∃ name, Word.ofToken m.token = .long name none := by
  have later {m' : Mention} {ms : List Mention} (h : ms.getLast? = some m) :
      (m' :: ms).getLast? = some m := by rw [List.getLast?_cons, h]; rfl
  induction h with
  | nil => cases hm
  | @whole token o own _ _ _ hneeds _ _ ih =>
    rcases List.mem_cons.1 hm with rfl | hm
    · cases own with
      | none =>
        have ht : o.takesValue = true := ht
        rw [ht] at hneeds
        cases hneeds
      | some w => cases hv
    · obtain ⟨hlast, hlong⟩ := ih hm
      exact ⟨later hlast, hlong⟩
  | pair _ _ _ _ ih =>
    rcases List.mem_cons.1 hm with rfl | hm
    · cases hv
    · obtain ⟨hlast, hlong⟩ := ih hm
      exact ⟨later hlast, hlong⟩
  | @dangling _ name _ _ _ _ hw =>
    cases List.mem_singleton.1 hm
    exact ⟨rfl, name, hw⟩

namespace Reading

variable {executable : String → Bool} {r r' : Reading} {ms : List Mention} {m : Mention}
  {given : List Occurrence} {x : Occurrence}

theorem Once.append_singleton (h : Once given)
    (hx : x.opt.repeatable = false → has { given } x.opt = false) : Once (given ++ [x]) := by
  intro o ho
  rw [List.filter_append, List.length_append]
  by_cases hopt : x.opt = o
  · subst hopt
    have hnone : given.filter (fun y => y.opt == x.opt) = [] :=
      List.filter_eq_nil_iff.2 (List.any_eq_false.1 (hx ho))
    rw [hnone, List.length_nil, Nat.zero_add]
    exact List.length_filter_le _ [x]
  · have hnone : [x].filter (fun y => y.opt == o) = [] := by simp [hopt]
    rw [hnone]
    exact h o ho

theorem Once.of_append {later : List Occurrence} (h : Once (given ++ later)) : Once given := by
  intro o ho
  have hle := h o ho
  rw [List.filter_append, List.length_append] at hle
  exact Nat.le_trans (Nat.le_add_right _ _) hle

/-- Nothing is wrong with an option that is accepted. -/
theorem sound_of_accept (hf : m.Formed) (hbare : m.opt.takesValue = false → m.own = none)
    (h : accept executable r m.opt m.value = .ok r') : m.Sound executable := by
  obtain ⟨hhelp, hvalue, -, -⟩ := accept_ok h
  have hchecked : ∀ v, m.value = some v → checkValue executable m.opt v = .ok () := by
    intro v hv
    cases ht : m.opt.takesValue with
    | false =>
      rw [Mention.value, hbare ht, hf.next ht] at hv
      cases hv
    | true =>
      obtain ⟨w, hw, hok⟩ := hvalue ht
      obtain rfl := Option.some.inj (hv.symm.trans hw)
      exact hok
  exact
    { notHelp := hhelp
      bare := hbare
      valued := fun ht hnone => by
        obtain ⟨v, hv, -⟩ := hvalue ht
        exact absurd (hnone.symm.trans hv) nofun
      nonEmpty := fun hr hv => (checkValue_ok (hchecked "" hv)).1 hr rfl
      runs := fun hcmake v hv => (checkValue_ok (hchecked v hv)).2.2 hcmake }

/-- An option is accepted if it is in order and may still be given. -/
theorem acceptMention_eq_some_iff (hf : m.Formed) :
    acceptMention executable r m = some r' ↔ m.Sound executable ∧
      (m.opt.repeatable = false → r.has m.opt = false) ∧
      r' = { r with given := r.given ++ [m.occurrence] } := by
  constructor
  · intro h
    rw [acceptMention] at h
    split at h
    · cases h
    · next hflag =>
      have hbare : m.opt.takesValue = false → m.own = none := fun ht =>
        Option.not_isSome_iff_eq_none.1 fun hown => hflag ⟨ht, hown⟩
      cases ha : accept executable r m.opt m.value with
      | error e => rw [ha] at h; cases h
      | ok r₁ =>
        rw [ha] at h
        cases h
        obtain ⟨-, -, honce, heq⟩ := accept_ok ha
        exact ⟨sound_of_accept hf hbare ha, honce, heq⟩
  · rintro ⟨hs, honce, rfl⟩
    have hflag : ¬ (m.opt.takesValue = false ∧ m.own.isSome = true) := by
      rintro ⟨ht, hown⟩
      rw [hs.bare ht] at hown
      cases hown
    have haccept : accept executable r m.opt m.occurrence.value? =
        .ok { r with given := r.given ++ [m.occurrence] } := (hf.valid hs).accept honce
    rw [acceptMention, if_neg hflag, ← hf.value?_eq hs]
    exact congrArg Except.toOption haccept

theorem acceptAll_eq_some_iff (hf : ∀ m ∈ ms, m.Formed) (ho : Once r.given) :
    acceptAll executable r ms = some r' ↔ (∀ m ∈ ms, m.Sound executable) ∧
      Once (r.given ++ ms.map Mention.occurrence) ∧
      r' = { r with given := r.given ++ ms.map Mention.occurrence } := by
  induction ms generalizing r with
  | nil =>
    simp [acceptAll, ho, eq_comm]
  | cons m ms ih =>
    obtain ⟨hm, hms⟩ := List.forall_mem_cons.1 hf
    have happend : r.given ++ (m :: ms).map Mention.occurrence =
        r.given ++ [m.occurrence] ++ ms.map Mention.occurrence := by simp
    rw [acceptAll_cons, Option.bind_eq_some_iff, happend, List.forall_mem_cons]
    constructor
    · rintro ⟨r₁, h₁, h⟩
      obtain ⟨hs, honce, rfl⟩ := (acceptMention_eq_some_iff hm).1 h₁
      obtain ⟨hall, hrest, rfl⟩ := (ih hms (ho.append_singleton honce)).1 h
      exact ⟨⟨hs, hall⟩, hrest, rfl⟩
    · rintro ⟨⟨hs, hall⟩, hrest, rfl⟩
      have hone : Once (r.given ++ [m.occurrence]) := hrest.of_append
      have honce : m.opt.repeatable = false → r.has m.opt = false := fun hr =>
        hone.has_eq_false hr
      exact ⟨_, (acceptMention_eq_some_iff hm).2 ⟨hs, honce, rfl⟩,
        (ih hms hone).2 ⟨hall, hrest, rfl⟩⟩

end Reading

/-! ## What can go wrong -/

theorem Spells.not_faulty_iff {executable : String → Bool} {tokens : List String}
    {ms : List Mention} (h : Spells tokens ms) :
    ¬ Faulty executable ms ↔
      (∀ m ∈ ms, m.Sound executable) ∧ Reading.Once (ms.map Mention.occurrence) := by
  have hlength (o : Opt) : ((ms.map Mention.occurrence).filter fun x => x.opt == o).length =
      (ms.filter fun m => m.opt == o).length := by
    rw [List.filter_map, List.length_map]
    rfl
  constructor
  · intro hn
    refine ⟨fun m hm => ?_, fun o ho => ?_⟩
    · exact
        { notHelp := fun hhelp => hn (.help hm hhelp)
          bare := fun ht => Option.not_isSome_iff_eq_none.1 fun hown => hn (.flagValue hm ht hown)
          valued := fun ht hv => by
            obtain ⟨hlast, name, hlong⟩ := h.getLast? hm ht hv
            exact hn (.noValue hlast ht hv hlong)
          nonEmpty := fun hr hv => hn (.emptyValue hm hr hv)
          runs := fun hcmake v hv => by
            cases hx : executable v with
            | true => rfl
            | false => exact absurd (.notExecutable hm hcmake hv hx) hn }
    · rw [hlength]
      exact Nat.le_of_not_lt fun hlt => hn (.repeated ho hlt)
  · rintro ⟨hsound, honce⟩ hfaulty
    cases hfaulty with
    | help hm hhelp => exact (hsound _ hm).notHelp hhelp
    | repeated ho hlt =>
      have hle := honce _ ho
      rw [hlength] at hle
      omega
    | flagValue hm ht hown =>
      rw [(hsound _ hm).bare ht] at hown
      cases hown
    | noValue hlast ht hv _ => exact (hsound _ (List.mem_of_getLast? hlast)).valued ht hv
    | emptyValue hm hr hv => exact (hsound _ hm).nonEmpty hr hv
    | notExecutable hm hcmake hv hx =>
      rw [(hsound _ hm).runs hcmake _ hv] at hx
      cases hx

/-- Reading tokens that spell options gives these options, or fails because of a fault and in an
expected way. -/
theorem Spells.run {tokens : List String} {ms : List Mention} (h : Spells tokens ms)
    (executable : String → Bool) (hg : ∀ m ∈ ms, m.Guarded) :
    (¬ Faulty executable ms ∧
        Reading.run executable tokens = .ok { given := ms.map Mention.occurrence }) ∨
      (Faulty executable ms ∧ ∃ e, Reading.run executable tokens = .error e ∧ e.Expected) := by
  have hready : Reading.Ready {} := .of_pending rfl rfl
  have hends : Reading.Ends (Reading.run executable tokens) (Reading.acceptAll executable {} ms) :=
    Reading.ends_read h hg hready
  have hall : ∀ r, Reading.acceptAll executable {} ms = some r ↔
      (∀ m ∈ ms, m.Sound executable) ∧ Reading.Once (ms.map Mention.occurrence) ∧
        r = { given := ms.map Mention.occurrence } := fun r =>
    Reading.acceptAll_eq_some_iff h.formed fun _ _ => Nat.zero_le 1
  generalize Reading.run executable tokens = x at hends ⊢
  cases hy : Reading.acceptAll executable {} ms with
  | none =>
    rw [hy] at hends
    cases hends with
    | error he =>
      refine .inr ⟨?_, _, rfl, he⟩
      apply Classical.byContradiction
      intro hn
      obtain ⟨hsound, honce⟩ := h.not_faulty_iff.1 hn
      have hsome := (hall _).2 ⟨hsound, honce, rfl⟩
      rw [hy] at hsome
      cases hsome
  | some r =>
    obtain ⟨hsound, honce, rfl⟩ := (hall r).1 hy
    rw [hy] at hends
    cases hends
    exact .inl ⟨h.not_faulty_iff.2 ⟨hsound, honce⟩, rfl⟩

namespace HookOptions

/-- The variable matters only where its flag is not given, and then it must hold a truth value. -/
theorem verbosity_error_iff {r : Reading} {env : String → Option String} {e : OptionError} :
    verbosity r env = .error e ↔ r.has .hookVerbose = false ∧
      ∃ v, env "CMAKE_PC_HOOKS_VERBOSE" = some v ∧ truthValue? v = none ∧
        e = .notABoolean .hookVerbose v := by
  have henv : Opt.hookVerbose.envName?.bind env = env "CMAKE_PC_HOOKS_VERBOSE" := rfl
  rw [verbosity, henv]
  cases r.has .hookVerbose with
  | true => simp
  | false =>
    cases env "CMAKE_PC_HOOKS_VERBOSE" with
    | none => simp
    | some v => cases ht : truthValue? v <;> simp [ht, eq_comm]

theorem parse_error_iff {executable : String → Bool} {env : String → Option String}
    {tokens : List String} {e : OptionError} :
    parse executable env tokens = .error e ↔ Reading.run executable tokens = .error e ∨
      ∃ r, Reading.run executable tokens = .ok r ∧ verbosity r env = .error e := by
  rw [parse]
  cases Reading.run executable tokens with
  | error e' => simp [bind, Except.bind]
  | ok r => cases hv : verbosity r env <;> simp [bind, Except.bind, hv]

/-- Reading what sorting leaves for the hook goes wrong only through faults of the user.  As long
as no value in a token of its own looks like an option, no token is unknown and no warning is
refused, and there is an error exactly if one of a few things is wrong with the options themselves,
or else with the variable that stands in for a flag that is not given. -/
theorem parse_sort_error_iff (h : Host) (args : List String)
    (hg : ∀ m ∈ mentions (Invocation.sort args).hookArgs, m.Guarded) :
    (∀ e, parse h.isExecutable h.env (Invocation.sort args).hookArgs = .error e →
      e.kind ≠ .unknownArgument ∧ (∀ o v, e ≠ .notAChoice o v) ∧ e ≠ .missingValue .warning ∧
        ∀ o v, e = .notABoolean o v →
          ¬ Faulty h.isExecutable (mentions (Invocation.sort args).hookArgs)) ∧
    ((∃ e, parse h.isExecutable h.env (Invocation.sort args).hookArgs = .error e) ↔
      Faulty h.isExecutable (mentions (Invocation.sort args).hookArgs) ∨
        (∀ m ∈ mentions (Invocation.sort args).hookArgs, m.opt ≠ .hookVerbose) ∧
          ∃ v, h.env "CMAKE_PC_HOOKS_VERBOSE" = some v ∧ truthValue? v = none) := by
  have hspells := Invocation.spells_hookArgs args
  generalize (Invocation.sort args).hookArgs = tokens at hspells hg ⊢
  generalize mentions tokens = ms at hspells hg ⊢
  rcases hspells.run h.isExecutable hg with ⟨hsound, hrun⟩ | ⟨hfaulty, e, hrun, he⟩
  · have hgiven : Reading.has { given := ms.map Mention.occurrence } .hookVerbose = false ↔
        ∀ m ∈ ms, m.opt ≠ .hookVerbose := by
      simp [Reading.has, Mention.occurrence]
    have hparse : ∀ e, parse h.isExecutable h.env tokens = .error e ↔
        (∀ m ∈ ms, m.opt ≠ .hookVerbose) ∧ ∃ v, h.env "CMAKE_PC_HOOKS_VERBOSE" = some v ∧
          truthValue? v = none ∧ e = .notABoolean .hookVerbose v := by
      intro e
      rw [parse_error_iff, hrun, ← hgiven, ← verbosity_error_iff]
      simp
    constructor
    · intro e he
      obtain ⟨-, v, -, -, rfl⟩ := (hparse e).1 he
      exact ⟨nofun, nofun, nofun, fun _ _ _ => hsound⟩
    · constructor
      · rintro ⟨e, he⟩
        obtain ⟨hquiet, v, hv, ht, -⟩ := (hparse e).1 he
        exact .inr ⟨hquiet, v, hv, ht⟩
      · rintro (hfaulty | ⟨hquiet, v, hv, ht⟩)
        · exact absurd hfaulty hsound
        · exact ⟨_, (hparse _).2 ⟨hquiet, v, hv, ht, rfl⟩⟩
  · have hparse : parse h.isExecutable h.env tokens = .error e := parse_error_iff.2 (.inl hrun)
    constructor
    · intro e' he'
      obtain rfl : e = e' := Except.error.inj (hparse.symm.trans he')
      cases he with
      | missingValue o hc =>
        refine ⟨nofun, nofun, fun hw => ?_, nofun⟩
        cases hw
        cases hc
      | _ => exact ⟨nofun, nofun, nofun, nofun⟩
    · exact ⟨fun _ => .inl hfaulty, fun _ => ⟨e, hparse⟩⟩

theorem parse_sort_error_iff_repeated :
    (∀ m ∈ mentions (Invocation.sort ["--clean", "-S", "-", "a.c", "-x", "--clean"]).hookArgs,
      m.Guarded) ∧
    ∃ e, parse (Host.isExecutable {}) (Host.env {})
      (Invocation.sort ["--clean", "-S", "-", "a.c", "-x", "--clean"]).hookArgs = .error e := by
  have hg : ∀ m ∈ mentions
      (Invocation.sort ["--clean", "-S", "-", "a.c", "-x", "--clean"]).hookArgs, m.Guarded := by
    decide
  have hiff := (parse_sort_error_iff {} ["--clean", "-S", "-", "a.c", "-x", "--clean"] hg).2
  have honce : Opt.clean.repeatable = false := rfl
  exact ⟨hg, hiff.2 (.inl (.repeated honce (by decide)))⟩

end HookOptions

end LintHooks
