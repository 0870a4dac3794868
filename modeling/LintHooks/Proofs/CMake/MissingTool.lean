import LintHooks.Proofs.CMake.Leading
set_option autoImplicit false

/-!
# CMake: what is lost where there is no CMake

That there is no command for CMake is noticed when it is to be called, and not before the build
directory is emptied.  So a configure step that was to empty it fails for want of CMake only after
all that CMake had built there is gone.  Any other step that fails so has added no more than the
build directory and the lock files.

The main result is `configure_without_command`.  The step is followed to its failure through the two
roles: a follower changes no file before the failure (`runOn_follower_missing`), and a leader gets
as far as emptying the directory (`runOn_leader_missing`).  That the failure is the one for want of
CMake and none from before is known because all earlier ones are other failures (`Silent`,
`fails_acquire`).  What has come until then are directories and the lock files (`grown_of_acquire`),
and `Abandoned.of_cleared` adds up what has come and what has gone.
-/

namespace LintHooks.CMake

variable {launcher : Launcher} {h h' h₁ : Host} {p p' : Project} {dir hookName : String}

/-! ## Who reports -/

/-- A failure that is no report. -/
def Silent (f : Failure) : Prop := ∀ r, f ≠ .report r

theorem fails_makeBuildDir (dir : String) : Action.Fails Silent (Project.makeBuildDir dir) := by
  refine Action.fails_bind Action.fails_host fun h => ?_
  split
  · exact Action.fails_set _
  · exact Action.fails_fail nofun

namespace ConfigureLock

theorem fails_openFile (path : String) : Action.Fails Silent (openFile path) := by
  refine Action.fails_bind Action.fails_host fun h => ?_
  split
  · exact Action.fails_fail nofun
  · exact Action.fails_bind (Action.fails_set _) fun _ => Action.fails_pure _

theorem fails_go (l : ConfigureLock) (locks : LockPair) (n : Nat) (s : Stage) :
    Action.Fails Silent (go l locks n s) := by
  refine Action.fails_bind Action.fails_host fun h => ?_
  split
  · exact Action.fails_set _
  · exact Action.fails_bind (Action.fails_modify _) fun _ =>
      Action.fails_bind (Action.fails_modify _) fun _ => Action.fails_fail nofun

theorem fails_acquire (l : ConfigureLock) : Action.Fails Silent l.acquire := by
  unfold acquire
  refine Action.fails_bind (fails_openFile _) fun tryLock => ?_
  refine Action.fails_bind Action.fails_host fun h => ?_
  refine Action.fails_bind (Action.fails_set _) fun _ => ?_
  refine Action.fails_bind_of_yields (Action.fails_outcome _)
    (Action.yields_outcome (fails_openFile _)) fun opened hopened => ?_
  cases opened with
  | error f => exact Action.fails_bind (Action.fails_modify _) fun _ =>
      Action.fails_fail (hopened f rfl)
  | ok mainLock =>
    dsimp only
    split
    · exact Action.fails_bind (fails_go _ _ _ _) fun _ => Action.fails_pure _
    · exact Action.fails_bind (fails_go _ _ _ _) fun _ => Action.fails_pure _

end ConfigureLock

namespace Project

/-! ## Projects without a command -/

theorem runOn_call_missing (hcommand : p.command = none) (extra : List String) :
    (p.call dir extra).runOn launcher h = (.error missingCMake, h) := by
  rw [call, hcommand]
  rfl

/-- A leader without a command gets no further than emptying the build directory. -/
theorem runOn_leader_missing {locks : LockPair} {root : Location} (hcommand : p.command = none)
    (hleading : Leading h dir locks root)
    (hrun : (p.proceed dir hookName (.leader locks)).runOn p launcher h =
      ((.error missingCMake, p'), h')) :
    Cleared root h.files h'.files ∧ (p.clean = false → h'.files = h.files) ∧
      (p.clean = true → ∀ l, Clutter root l → h'.files.get? l = none) := by
  rcases hprepare : (p.prepare dir hookName).runOn launcher h with ⟨begun, h₁⟩
  obtain ⟨s, files, hleft, hcleared, hclean, hgone, hsilent⟩ := runOn_prepare hleading hprepare
  cases begun with
  | error f =>
    have hlead : (p.lead dir hookName).runOn launcher h = (.error f, h₁) := by
      rw [lead, Action.runOn_bind, hprepare]
    rw [runOn_proceed_leader locks hlead] at hrun
    cases hrun
    exact absurd rfl (hsilent _)
  | ok _ =>
    have hlead : (p.lead dir hookName).runOn launcher h = (.error missingCMake, h₁) := by
      rw [lead, Action.runOn_bind_eq hprepare, callForDatabase, Action.runOn_bind,
        runOn_call_missing hcommand]
    rw [runOn_proceed_leader locks hlead] at hrun
    obtain rfl := congrArg (·.2) hrun
    subst hleft
    exact ⟨hcleared, hclean, hgone rfl⟩

/-- A follower without a command changes no file. -/
theorem runOn_follower_missing (launcher : Launcher) (h : Host) (hookName : String)
    (hcommand : p.command = none) (hdir : p.buildDir = some dir) :
    ((p.proceed dir hookName .follower).runOn p launcher h).2.files = h.files := by
  obtain ⟨s, hs⟩ := Action.runOn_debug launcher h .cmake
    (who h hookName ++ " did not run CMake configure and is done waiting")
  have hfollow : (p.configureAs dir hookName .follower).runOn launcher h = (.ok {}, h.told s) := by
    rw [configureAs, Action.runOn_bind_host]
    exact Action.runOn_bind_eq hs
  rw [proceed, ActionOn.runOn_bind_liftM p hfollow, conclude_success rfl]
  cases p.traceLog with
  | none => rfl
  | some log =>
    dsimp only
    rw [readConfiguredFiles, Action.info,
      ActionOn.runOn_bind_liftM p (Action.runOn_tell_shown launcher _ _ _ _),
      ActionOn.runOn_bind_modify, ActionOn.runOn_bind_get]
    have hcommand' : ({ p with configuredFiles := [] } : Project).command = none := hcommand
    have hdir' : ({ p with configuredFiles := [] } : Project).buildDir = some dir := hdir
    generalize ({ p with configuredFiles := [] } : Project) = q at hcommand' hdir' ⊢
    rw [hdir']
    dsimp only
    rw [ActionOn.runOn_bind, ActionOn.runOn_liftM, runOn_call_missing hcommand']
    rfl

/-! ## The whole step -/

/-- What comes when a hook finds its role: directories, and empty files where the paths of the lock
files lead to. -/
def Comes (held : Host) (dir : String) (l : Location) (e : Entry) : Prop :=
  e = .directory ∨ e = .file .empty false ∧
    ∃ name ∈ ConfigureLock.names, held.files.locate held.workDir (Path.join dir name) = .ok l

theorem grown_of_acquire {held : Host} {role : ConfigureRole} (hr : h.files.Rooted)
    (hmade : (makeBuildDir dir).runOn launcher h = (.ok (), h₁))
    (hrole : (ConfigureLock.ofBuildDir dir).acquire.runOn launcher h₁ = (.ok role, held)) :
    FileSystem.Grown (Comes held dir) h.files held.files := by
  obtain ⟨-, hr₁, hmore⟩ := runOn_makeBuildDir_ok hr hmade
  obtain ⟨pair, files, table, rfl, hopened, -, -⟩ := ConfigureLock.runOn_acquire_ok hr₁ hrole
  refine (hmore.imp fun _ _ hnew => .inl hnew).trans (hopened.grown.imp fun l e hnew => .inr ?_)
  obtain ⟨hl, rfl⟩ := hnew
  simp only [List.mem_cons, List.not_mem_nil, or_false] at hl
  rcases hl with rfl | rfl
  · exact ⟨rfl, ConfigureLock.tryName, by decide, hopened.locate_tryFile⟩
  · exact ⟨rfl, ConfigureLock.mainName, by decide, hopened.locate_mainFile⟩

/-- What there is in the end where a step fails for want of CMake.  The hook has found its role on
`held`; `emptied` says whether it had the build directory emptied. -/
structure Abandoned (h held : Host) (dir : String) (root : Location) (emptied : Prop) (h' : Host) :
    Prop where
  /-- All that was in the build directory is gone. -/
  gone : emptied → ∀ l, Clutter root l → h'.files.get? l = none
  /-- All else is there, with the lock files. -/
  kept : ∀ l e, h.files.get? l = some e → (emptied → ¬ Clutter root l) → h'.files.get? l = some e
  /-- Just directories and empty lock files have come. -/
  come : ∀ l e, h'.files.get? l = some e →
    h.files.get? l = some e ∨ h.files.get? l = none ∧ Comes held dir l e

/-- What is left follows from what has come until the hook has found its role, and what has gone
then. -/
theorem Abandoned.of_cleared {held : Host} {root : Location} {emptied : Prop}
    (hgrown : FileSystem.Grown (Comes held dir) h.files held.files)
    (hcleared : Cleared root held.files h'.files)
    (hsame : ¬ emptied → h'.files = held.files)
    (hgone : emptied → ∀ l, Clutter root l → h'.files.get? l = none) :
    Abandoned h held dir root emptied h' where
  gone := hgone
  kept l e he hother := by
    have hheld := hgrown.kept l e he
    rcases hcleared l with hl | ⟨hl, hclutter⟩
    · rw [hl, hheld]
    · by_cases hemptied : emptied
      · exact absurd hclutter (hother hemptied)
      · rw [hsame hemptied, hheld] at hl
        cases hl
  come l e he := hgrown.come l e (hcleared.within l e he)

/-- A configure step without a command for CMake has lost the build directory if it leads and was to
empty it, and nothing else. -/
theorem configure_without_command (hr : h.files.Rooted) (hcommand : p.command = none)
    (hrun : (configure hookName).runOn p launcher h = ((.error missingCMake, p'), h')) :
    ∃ dir root role h₁ h₂, p.buildDir = some dir ∧
      (makeBuildDir dir).runOn launcher h = (.ok (), h₁) ∧
      (ConfigureLock.ofBuildDir dir).acquire.runOn launcher h₁ = (.ok role, h₂) ∧
      Holds h₂.files h₂.workDir dir root ∧
      Abandoned h h₂ dir root (p.clean = true ∧ ∃ locks, role = .leader locks) h' := by
  rw [configure, ActionOn.runOn_bind_get] at hrun
  split at hrun
  · rw [ActionOn.runOn_liftM, Action.debug, Action.runOn_tell_shown] at hrun
    cases hrun
  split at hrun
  · cases hrun
  next dir hdir =>
  rcases hmade : (makeBuildDir dir).runOn launcher h with ⟨f | _, h₁⟩
  · rw [ActionOn.runOn_bind, ActionOn.runOn_liftM, hmade] at hrun
    cases hrun
    exact absurd rfl (fails_makeBuildDir dir launcher h _ _ hmade _)
  rw [ActionOn.runOn_bind_liftM p hmade] at hrun
  rcases hrole : (ConfigureLock.ofBuildDir dir).acquire.runOn launcher h₁ with ⟨f | role, h₂⟩
  · rw [ActionOn.runOn_bind, ActionOn.runOn_liftM, hrole] at hrun
    cases hrun
    exact absurd rfl (ConfigureLock.fails_acquire _ launcher h₁ _ _ hrole _)
  rw [ActionOn.runOn_bind_liftM p hrole] at hrun
  have hgrown := grown_of_acquire hr hmade hrole
  obtain ⟨-, hr₁, -⟩ := runOn_makeBuildDir_ok hr hmade
  obtain ⟨root, hholds, hleading⟩ := settled_of_acquire hr₁ hrole
  refine ⟨dir, root, role, h₁, h₂, hdir, hmade, hrole, hholds, ?_⟩
  cases role with
  | leader locks =>
    obtain ⟨hcleared, hclean, hgone⟩ := runOn_leader_missing hcommand (hleading locks rfl) hrun
    refine .of_cleared hgrown hcleared (fun hnot => hclean ?_) fun hemptied => hgone hemptied.1
    exact Bool.eq_false_iff.2 fun hflag => hnot ⟨hflag, locks, rfl⟩
  | follower =>
    have hsame : h'.files = h₂.files := by
      have hfiles := runOn_follower_missing launcher h₂ hookName hcommand hdir
      rwa [hrun] at hfiles
    refine .of_cleared hgrown ?_ (fun _ => hsame) ?_
    · rw [hsame]
      exact .refl root _
    · rintro ⟨-, locks, ⟨⟩⟩

/-! ### A file that is lost -/

/-- A project that empties its build directory for a CMake that is not there. -/
def unarmed : Project := { tidy with command := none }

theorem configure_without_command_linked : ∃ h',
    (configure "hook").runOn unarmed writing linkedLock = ((.error missingCMake, unarmed), h') ∧
    linkedLock.files.get? ["b", "real"] = some (.file .empty false) ∧
    h'.files.get? ["b", "real"] = none := by
  have hprepare : (unarmed.prepare "/b" "hook").runOn writing linkedHeld =
      (.ok (), linkedCleared) := linked_prepare
  have hlead : (unarmed.lead "/b" "hook").runOn writing linkedHeld =
      (.error missingCMake, linkedCleared) := by
    rw [lead, Action.runOn_bind_eq hprepare, callForDatabase, Action.runOn_bind,
      runOn_call_missing rfl]
  have hrun : (configure "hook").runOn unarmed writing linkedLock =
      (unarmed.proceed "/b" "hook" (.leader linkedLocks)).runOn unarmed writing linkedHeld :=
    runOn_configure rfl rfl linked_makeBuildDir linked_acquire
  rw [runOn_proceed_leader linkedLocks hlead] at hrun
  refine ⟨_, hrun, rfl, ?_⟩
  obtain ⟨dir, root, role, h₁, h₂, hdir, hmade, hrole, hholds, habandoned⟩ :=
    configure_without_command linked_rooted rfl hrun
  cases hdir
  cases hmade.symm.trans linked_makeBuildDir
  cases hrole.symm.trans linked_acquire
  obtain ⟨_, hleads⟩ := hholds.leads
  obtain rfl : ["b"] = root := hleads.unique (leads_b rfl)
  exact habandoned.gone ⟨rfl, linkedLocks, rfl⟩ _ ⟨"real", [], rfl, by decide⟩

end Project

end LintHooks.CMake
