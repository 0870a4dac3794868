import LintHooks.Hook.Command
import LintHooks.Proofs.Host.Invariant
set_option autoImplicit false

/-!
# Hooks: how a command ends

The command of a hook goes through a number of stages, and each of them may be the last one.  `Ends`
says for a command line on a host how the command ends there; it ends in exactly one way, and the
way decides about the status.  A status of zero means that the help or the settings were shown or
that the tool has found nothing, and never that something has failed: exit codes of CMake that would
be taken for zero, or for no status at all, are replaced.

The main result is `command_status`.  Each stage has its own relation (`Lints`, `Acts`, `Ends`), and
for each of them it is shown that exactly one ending is right and that the program comes to it:
`lints_iff` for the linting, which is taken apart by `runOn_lint`, and `exists_acts` for what is
done with the options.  That the failures shown at last have the status of their ending is
`statusOf_exitCode`; there the exit codes of CMake are compared with what a process can have for a
status.  The bounds of the status are those of `status_le` and `status_eq_zero_iff`.
-/

namespace LintHooks.Hook

/-- How the command of a hook ends. -/
inductive Ending where
  /-- The options were not read to their end, because the help was asked for or by mistake. -/
  | options (e : OptionError)
  /-- The settings were shown. -/
  | shown
  /-- The tool was run and has found something, or not. -/
  | ran (found : Bool)
  | failed (f : Failure)
  deriving DecidableEq

namespace Ending

/-- The status that belongs to an ending. -/
def status : Ending → Nat
  | .options .help => 0
  | .options _ => 2
  | .shown => 0
  | .ran false => 0
  | .ran true => 1
  | .failed (.report (.config _ _)) => 2
  | .failed (.report (.invalidArgument _ _)) => 2
  | .failed (.report (.configureFailed _ code _)) =>
    if 1 ≤ code ∧ code ≤ 255 then code.toNat else 1
  | .failed _ => 1

/-- How a command ends that has come as far as to run its tool. -/
def ofLint : Except Failure Bool → Ending
  | .ok found => .ran found
  | .error f => .failed f

/-- What a hook that has read its options makes of an ending: the status, except where a failure is
yet to be shown. -/
def result : Ending → Except Failure Nat
  | .failed f => .error f
  | e => .ok e.status

theorem status_le (e : Ending) : e.status ≤ 255 := by
  unfold status
  split
  case h_8 => split <;> omega
  all_goals decide

theorem status_eq_zero_iff (e : Ending) :
    e.status = 0 ↔ e = .options .help ∨ e = .shown ∨ e = .ran false := by
  cases e with
  | options e => cases e <;> simp [status]
  | shown => simp [status]
  | ran found => cases found <;> simp [status]
  | failed f =>
    cases f with
    | report r =>
      cases r with
      | configureFailed message code hint =>
        have hne : ¬ (if 1 ≤ code ∧ code ≤ 255 then code.toNat else 1) = 0 := by
          split <;> omega
        simpa [status] using hne
      | _ => simp [status]
    | _ => simp [status]

end Ending

/-! ## The stages -/

/-- How the linting ends with some settings: the tool or the project cannot be had, the target files
cannot be made ready, or the tool is run. -/
inductive Lints (hook : Hook) (i : Invocation) (s : Settings) (launcher : Launcher) (h : Host) :
    Ending → Prop where
  | unmade {f : Failure} {h₁ : Host} :
    (Runner.ofInvocation hook i s).runOn launcher h = (.error f, h₁) →
    Lints hook i s launcher h (.failed f)
  | unprepared {f : Failure} {r r₁ : Runner} {h₁ h₂ : Host} :
    (Runner.ofInvocation hook i s).runOn launcher h = (.ok r, h₁) →
    (Runner.prepare hook).runOn r launcher h₁ = ((.error f, r₁), h₂) →
    Lints hook i s launcher h (.failed f)
  | stopped {f : Failure} {r r₁ r₂ : Runner} {h₁ h₂ h₃ : Host} :
    (Runner.ofInvocation hook i s).runOn launcher h = (.ok r, h₁) →
    (Runner.prepare hook).runOn r launcher h₁ = ((.ok (), r₁), h₂) →
    (run hook).runOn r₁ launcher h₂ = ((.error f, r₂), h₃) →
    Lints hook i s launcher h (.failed f)
  | ran {found : Bool} {r r₁ r₂ : Runner} {h₁ h₂ h₃ : Host} :
    (Runner.ofInvocation hook i s).runOn launcher h = (.ok r, h₁) →
    (Runner.prepare hook).runOn r launcher h₁ = ((.ok (), r₁), h₂) →
    (run hook).runOn r₁ launcher h₂ = ((.ok found, r₂), h₃) →
    Lints hook i s launcher h (.ran found)

/-- How a command ends whose options have been read. -/
inductive Acts (hook : Hook) (i : Invocation) (o : HookOptions) (launcher : Launcher) (h : Host) :
    Ending → Prop where
  | unloaded {f : Failure} {h₁ : Host} :
    (Settings.loadLayered o.config o.layer).runOn launcher h = (.error f, h₁) →
    Acts hook i o launcher h (.failed f)
  | shown {s : Settings} {h₁ : Host} :
    (Settings.loadLayered o.config o.layer).runOn launcher h = (.ok s, h₁) → o.dumpToml = true →
    Acts hook i o launcher h .shown
  | lints {s : Settings} {h₁ : Host} {e : Ending} :
    (Settings.loadLayered o.config o.layer).runOn launcher h = (.ok s, h₁) → o.dumpToml = false →
    Lints hook i s launcher h₁ e → Acts hook i o launcher h e

/-- The host with its log open and its colors set as the options say. -/
def opened (o : HookOptions) (h : Host) : Host :=
  { h with plain := h.plain || o.noColor, log := some (logFilter h o.hookVerbose) }

/-- How the command of a hook ends. -/
inductive Ends (hook : Hook) (args : List String) (launcher : Launcher) (h : Host) :
    Ending → Prop where
  | options {e : OptionError} :
    HookOptions.parse h.isExecutable h.env (Invocation.sort args).hookArgs = .error e →
    Ends hook args launcher h (.options e)
  | acts {o : HookOptions} {e : Ending} :
    HookOptions.parse h.isExecutable h.env (Invocation.sort args).hookArgs = .ok o →
    Acts hook (Invocation.sort args) o launcher (opened o h) e → Ends hook args launcher h e

variable {hook : Hook} {i : Invocation} {s : Settings} {o : HookOptions} {launcher : Launcher}
  {h : Host} {e : Ending}

/-- The runner is made, then made ready, and then its tool is run. -/
theorem runOn_lint : ((lint hook i s).runOn launcher h).1 =
    match (Runner.ofInvocation hook i s).runOn launcher h with
    | (.error f, _) => .error f
    | (.ok r, h₁) =>
      match (Runner.prepare hook).runOn r launcher h₁ with
      | ((.error f, _), _) => .error f
      | ((.ok (), r₁), h₂) => ((run hook).runOn r₁ launcher h₂).1.1 := by
  rw [lint, Action.runOn_bind]
  rcases (Runner.ofInvocation hook i s).runOn launcher h with ⟨_ | r, h₁⟩
  · rfl
  · dsimp only
    rw [Action.runOn_bind, ActionOn.runOn_startingFrom, ActionOn.runOn_bind]
    rcases (Runner.prepare hook).runOn r launcher h₁ with ⟨⟨_ | _, r₁⟩, h₂⟩
    · rfl
    · dsimp only
      rcases (run hook).runOn r₁ launcher h₂ with ⟨⟨_ | _, r₂⟩, h₃⟩ <;> rfl

theorem lints_iff :
    Lints hook i s launcher h e ↔ e = .ofLint ((lint hook i s).runOn launcher h).1 := by
  rw [runOn_lint]
  constructor
  · rintro (hmade | ⟨hmade, hprepared⟩ | ⟨hmade, hprepared, hrun⟩ | ⟨hmade, hprepared, hrun⟩)
    · rw [hmade]
      rfl
    · rw [hmade]
      dsimp only
      rw [hprepared]
      rfl
    · rw [hmade]
      dsimp only
      rw [hprepared]
      dsimp only
      rw [hrun]
      rfl
    · rw [hmade]
      dsimp only
      rw [hprepared]
      dsimp only
      rw [hrun]
      rfl
  · rintro rfl
    split
    · next hmade => exact .unmade hmade
    · next hmade =>
      split
      · next hprepared => exact .unprepared hmade hprepared
      · next r₁ h₂ hprepared =>
        rcases hrun : (run hook).runOn r₁ launcher h₂ with ⟨⟨f | found, r₂⟩, h₃⟩
        · exact .stopped hmade hprepared hrun
        · exact .ran hmade hprepared hrun

/-- What a hook does with its options ends in one way, and the result is that of the ending. -/
theorem exists_acts (hook : Hook) (i : Invocation) (o : HookOptions) (launcher : Launcher)
    (h : Host) : ∃ e, Acts hook i o launcher h e ∧ (∀ other, Acts hook i o launcher h other →
      other = e) ∧ ((act hook i o).runOn launcher h).1 = e.result := by
  rw [act, Action.runOn_bind]
  rcases hload : (Settings.loadLayered o.config o.layer).runOn launcher h with ⟨f | s, h₁⟩
  · refine ⟨.failed f, .unloaded hload, ?_, rfl⟩
    rintro other (hother | ⟨hother, -⟩ | ⟨hother, -, -⟩)
    · cases hload.symm.trans hother
      rfl
    · cases hload.symm.trans hother
    · cases hload.symm.trans hother
  · dsimp only
    cases hdump : o.dumpToml with
    | true =>
      refine ⟨.shown, .shown hload hdump, ?_, rfl⟩
      rintro other (hother | ⟨-, -⟩ | ⟨-, hother, -⟩)
      · cases hload.symm.trans hother
      · rfl
      · cases hdump.symm.trans hother
    | false =>
      refine ⟨.ofLint ((lint hook i s).runOn launcher h₁).1, .lints hload hdump (lints_iff.2 rfl),
        ?_, ?_⟩
      · rintro other (hother | ⟨-, hother⟩ | ⟨hother, -, hlints⟩)
        · cases hload.symm.trans hother
        · cases hdump.symm.trans hother
        · cases hload.symm.trans hother
          exact lints_iff.1 hlints
      · rw [if_neg Bool.false_ne_true, Action.runOn_bind]
        rcases (lint hook i s).runOn launcher h₁ with ⟨f | found, h₂⟩
        · rfl
        · cases found <;> rfl

/-! ## The status -/

/-- The exit code of a report becomes the status that belongs to it.  Zero has been replaced before,
and what is too small or too great for a status is now. -/
theorem statusOf_exitCode (r : Report) :
    statusOf r.exitCode = (Ending.failed (.report r)).status := by
  cases r with
  | configureFailed message code hint =>
    show (if 0 ≤ (if code ≠ 0 then code else 1) ∧ (if code ≠ 0 then code else 1) ≤ 255 then
      (if code ≠ 0 then code else 1).toNat else 1) = if 1 ≤ code ∧ code ≤ 255 then code.toNat else 1
    by_cases hzero : code = 0
    · rw [hzero]
      rfl
    · have hsame : 0 ≤ code ∧ code ≤ 255 ↔ 1 ≤ code ∧ code ≤ 255 := by omega
      simp only [if_pos hzero, hsame]
  | _ => rfl

/-- Showing a failure never fails itself. -/
theorem runOn_showFailure (f : Failure) (launcher : Launcher) (h : Host) :
    ∃ h', (showFailure f).runOn launcher h = (.ok (Ending.failed f).status, h') := by
  cases f with
  | report r =>
    rw [← statusOf_exitCode]
    exact ⟨_, rfl⟩
  | _ => exact ⟨_, rfl⟩

theorem runOn_showOptionError (hook : Hook) (error : OptionError) (launcher : Launcher) (h : Host) :
    ∃ h', (showOptionError hook error).runOn launcher h =
      (.ok (Ending.options error).status, h') := by
  cases error with
  | help => exact ⟨_, rfl⟩
  | _ => exact ⟨_, rfl⟩

/-- Every command of a hook ends in one way and with the status of that ending, which is a status of
a process, and is zero only where the help or the settings were shown or the tool has found
nothing. -/
theorem command_status (hook : Hook) (args : List String) (launcher : Launcher) (h : Host) :
    ∃ e h', Ends hook args launcher h e ∧ (∀ other, Ends hook args launcher h other → other = e) ∧
      (hook.command args).runOn launcher h = (.ok e.status, h') ∧
      e.status ≤ 255 ∧
      (e.status = 0 ↔ e = .options .help ∨ e = .shown ∨ e = .ran false) := by
  rw [command, Action.runOn_bind_host]
  rcases hparse : HookOptions.parse h.isExecutable h.env (Invocation.sort args).hookArgs with
    error | o
  · obtain ⟨h', hshown⟩ := runOn_showOptionError hook error launcher h
    refine ⟨.options error, h', .options hparse, ?_, hshown, Ending.status_le _,
      Ending.status_eq_zero_iff _⟩
    rintro other (hother | ⟨hother, -⟩)
    · cases hparse.symm.trans hother
      rfl
    · cases hparse.symm.trans hother
  · obtain ⟨e, hacts, hunique, hresult⟩ :=
      exists_acts hook (Invocation.sort args) o launcher (opened o h)
    have hends (other : Ending) (hother : Ends hook args launcher h other) : other = e := by
      rcases hother with hother | ⟨hother, hacts⟩
      · cases hparse.symm.trans hother
      · cases hparse.symm.trans hother
        exact hunique other hacts
    have hopen : (openLog o).runOn launcher h = (.ok (), opened o h) := rfl
    dsimp only
    rw [Action.runOn_bind_eq hopen, Action.runOn_bind, Action.runOn_outcome, hresult]
    dsimp only
    cases e with
    | failed f =>
      obtain ⟨h', hstatus⟩ := runOn_showFailure f launcher
        ((act hook (Invocation.sort args) o).runOn launcher (opened o h)).2
      exact ⟨.failed f, h', .acts hparse hacts, hends, hstatus, Ending.status_le _,
        Ending.status_eq_zero_iff _⟩
    | _ =>
      exact ⟨_, _, .acts hparse hacts, hends, rfl, Ending.status_le _,
        Ending.status_eq_zero_iff _⟩

end LintHooks.Hook
