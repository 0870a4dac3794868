import LintHooks.Hook.Runner
import LintHooks.Proofs.CMake.Generated
import LintHooks.Proofs.Host.Told
import Mathlib.Tactic.SplitIfs
set_option autoImplicit false

/-!
# Hooks: getting ready

What becomes of a hook until it runs its tool: a runner is made of the command line and the
settings, and then it takes in the files that CMake knows of.  Each of the two steps is described
once, by all that it can have done where it has come to a good end.

The two descriptions are `ofInvocation_ok` and `prepare_ok`.  Both follow the program from one step
to the next, and all that is used of the steps is what they can leave behind: files that are skipped
are only told of, and the files of the database are the `Listed` ones (`listed_of_databaseFiles`).
For runs that end badly there is `keeps_prepare`: what does not depend on the files and on the
project is kept in any case.
-/

namespace LintHooks.Runner

variable {hook : Hook} {i : Invocation} {s : Settings} {launcher : Launcher} {h h' : Host}
  {r r' : Runner}

/-! ## Making a runner -/

/-- The runner of a command line.  What stands behind the separator is looked up in the file system
when all programs have been run that are asked for their versions, and from then on only the log is
written. -/
theorem ofInvocation_ok (hmade : (ofInvocation hook i s).runOn launcher h = (.ok r, h')) :
    ∃ tool project, project.configuredFiles = [] ∧
      r = { tool, project
            settings := s
            toolArgs := Hook.completeArgs i.toolArgs (hook.defaultArgs project.buildDir)
            files := hook.targets (hook.fileArgs h'.isFile i.files i.ddash).candidates
            ddash := (hook.fileArgs h'.isFile i.files i.ddash).ddash } := by
  unfold ofInvocation at hmade
  obtain ⟨tool, h₁, -, hmade⟩ := Action.runOn_bind_ok hmade
  obtain ⟨_, h₂, -, hmade⟩ := Action.runOn_bind_ok hmade
  have hrest : ∃ h₃, (do
      s.check
      let project ← CMake.Project.ofSettings s
      let args := hook.fileArgs (← Action.host).isFile i.files i.ddash
      (args.candidates.filter fun file => !hook.handles file).forM fun file =>
        Action.debug .hooks ("skipping " ++ file ++ " (not handled by " ++ hook.name ++ ")")
      pure
        { tool, project
          settings := s
          toolArgs := Hook.completeArgs i.toolArgs (hook.defaultArgs project.buildDir)
          files := hook.targets args.candidates
          ddash := args.ddash } : Action Runner).runOn launcher h₃ = (.ok r, h') := by
    dsimp only at hmade
    split at hmade
    · obtain ⟨_, h₃, -, hmade⟩ := Action.runOn_bind_ok hmade
      exact ⟨h₃, hmade⟩
    · exact ⟨h₂, hmade⟩
  obtain ⟨h₃, hrest⟩ := hrest
  obtain ⟨_, h₄, -, hrest⟩ := Action.runOn_bind_ok hrest
  obtain ⟨project, h₅, hproject, hrest⟩ := Action.runOn_bind_ok hrest
  rw [Action.runOn_bind_host] at hrest
  obtain ⟨_, h₆, hskip, hrest⟩ := Action.runOn_bind_ok hrest
  refine ⟨tool, project, CMake.Project.yields_ofSettings s launcher h₄ project h₅ hproject, ?_⟩
  obtain ⟨t, ht⟩ := Action.runOn_forM_told launcher h₅
    (fun file h => Action.runOn_debug launcher h .hooks
      ("skipping " ++ file ++ " (not handled by " ++ hook.name ++ ")"))
    ((hook.fileArgs h₅.isFile i.files i.ddash).candidates.filter fun file => !hook.handles file)
  cases ht.symm.trans hskip
  cases hrest
  rfl

/-! ## Making it ready -/

/-- What a runner keeps while it is made ready, wherever that ends: all that is left alone when
files are added and when something becomes known of the project. -/
theorem keeps_prepare {P : Runner → Prop} (hook : Hook)
    (hproject : ∀ project r, P r → P { r with project })
    (hfiles : ∀ more r, P r → P { r with files := Hook.addFiles r.files more }) :
    ActionOn.Keeps P (prepare hook) := by
  have hconfigure : ActionOn.Keeps P (onProject (CMake.Project.configure hook.commandName)) :=
    ActionOn.keeps_within hproject _
  have hconfigured : ActionOn.Keeps P (modify fun r =>
      { r with files := Hook.addFiles r.files r.project.configuredFiles } :
      ActionOn Runner PUnit) := ActionOn.keeps_modify fun r hr => hfiles _ r hr
  have hdatabase : ActionOn.Keeps P (do
      let found ← databaseFiles (← get)
      modify fun r => { r with files := Hook.addFiles r.files found }
      modify fun r => { r with files := Hook.addFiles r.files r.project.configuredFiles } :
      ActionOn Runner PUnit) := by
    refine ActionOn.keeps_bind ActionOn.keeps_get fun r => ?_
    refine ActionOn.keeps_bind (ActionOn.keeps_liftM _) fun found => ?_
    exact ActionOn.keeps_bind (ActionOn.keeps_modify (hfiles found)) fun _ => hconfigured
  unfold prepare
  refine ActionOn.keeps_bind ActionOn.keeps_get fun r => ?_
  dsimp only
  split_ifs
  · exact ActionOn.keeps_liftM _
  · exact ActionOn.keeps_bind hconfigure fun _ => hdatabase
  · exact ActionOn.keeps_bind hconfigure fun _ => hconfigured
  · exact hdatabase
  · exact hconfigured

/-- The source files that the database of a project lists on a host: those of its records, in their
order, and none where there is no database. -/
def Listed (project : CMake.Project) (h : Host) (files : List String) : Prop :=
  match project.database with
  | none => files = []
  | some path =>
    if h.isFile path then ∃ content commands, h.readText path = .ok content ∧
      CompileDatabase.parse content = .ok commands ∧
      files = commands.map CompileCommand.sourcePath
    else files = []

theorem listed_of_databaseFiles {files : List String}
    (hrun : r.databaseFiles.runOn launcher h = (.ok files, h')) : Listed r.project h files := by
  unfold databaseFiles at hrun
  unfold Listed
  cases hdatabase : r.project.database with
  | none =>
    rw [hdatabase] at hrun
    cases hrun
    rfl
  | some path =>
    rw [hdatabase] at hrun
    dsimp only at hrun ⊢
    unfold CompileDatabase.sourceFiles at hrun
    rw [Action.runOn_bind_host] at hrun
    split at hrun
    · next hfile =>
      rw [if_pos hfile]
      split at hrun
      · cases hrun
      · next content hcontent =>
        split at hrun
        · cases hrun
        · next commands hcommands =>
          cases hrun
          exact ⟨content, commands, hcontent, hcommands, rfl⟩
    · next hfile =>
      obtain ⟨_, h₁, -, hrun⟩ := Action.runOn_bind_ok hrun
      cases hrun
      rw [if_neg hfile]

/-- What the configure step has made of the project of a runner and of the host, where there is such
a step. -/
def Configured (hook : Hook) (r : Runner) (launcher : Launcher) (h : Host)
    (project : CMake.Project) (h' : Host) : Prop :=
  if hook.needsDatabase || r.settings.flag .readJsonDb then
    (CMake.Project.configure hook.commandName).runOn r.project launcher h = ((.ok (), project), h')
  else project = r.project ∧ h' = h

theorem onProject_ok
    (hrun : (onProject (CMake.Project.configure hook.commandName)).runOn r launcher h =
      ((.ok (), r'), h')) :
    ∃ project, r' = { r with project } ∧
      (CMake.Project.configure hook.commandName).runOn r.project launcher h =
        ((.ok (), project), h') := by
  have hpart : (onProject (CMake.Project.configure hook.commandName)).runOn r launcher h =
      let o := (CMake.Project.configure hook.commandName).runOn r.project launcher h
      ((o.1.1, { r with project := o.1.2 }), o.2) := rfl
  rw [hpart] at hrun
  rcases hown : (CMake.Project.configure hook.commandName).runOn r.project launcher h with
    ⟨⟨result, project⟩, h₁⟩
  rw [hown] at hrun
  cases hrun
  exact ⟨project, rfl, rfl⟩

/-- A runner that is ready.  Nothing has been done if there was nothing to do; else the files of the
database have been added if they are wanted, and then the ones that CMake has generated. -/
theorem prepare_ok (hrun : (prepare hook).runOn r launcher h = ((.ok (), r'), h')) :
    (r' = r ∧ r.files = [] ∧ r.mayFindFiles = false) ∨
    ∃ project h₁ listed, Configured hook r launcher h project h₁ ∧
      (if r.settings.flag .readJsonDb then Listed project h₁ listed else listed = []) ∧
      r' = { r with
        project
        files := Hook.addFiles (Hook.addFiles r.files listed) project.configuredFiles } := by
  unfold prepare at hrun
  rw [ActionOn.runOn_bind_get] at hrun
  dsimp only at hrun
  split at hrun
  · next hnothing =>
    rw [Bool.and_eq_true, List.isEmpty_iff, Bool.not_eq_true'] at hnothing
    have hsame : r = r' := congrArg (·.1.2) hrun
    exact .inl ⟨hsame.symm, hnothing⟩
  · right
    -- Whether there is a configure step or not, the same follows with what it has left.
    have hrest : ∃ project h₁, Configured hook r launcher h project h₁ ∧
        (if r.settings.flag .readJsonDb then do
          let found ← databaseFiles (← get)
          modify fun r => { r with files := Hook.addFiles r.files found }
          modify fun r => { r with files := Hook.addFiles r.files r.project.configuredFiles }
        else modify fun r => { r with files := Hook.addFiles r.files r.project.configuredFiles } :
        ActionOn Runner PUnit).runOn { r with project } launcher h₁ = ((.ok (), r'), h') := by
      unfold Configured
      split at hrun
      · next hstep =>
        obtain ⟨_, r₁, h₁, hconfigure, hrun⟩ := ActionOn.runOn_bind_ok hrun
        obtain ⟨project, rfl, hconfigure⟩ := onProject_ok hconfigure
        refine ⟨project, h₁, ?_, hrun⟩
        rwa [if_pos hstep]
      · next hstep =>
        refine ⟨r.project, h, ?_, hrun⟩
        rw [if_neg hstep]
        exact ⟨rfl, rfl⟩
    obtain ⟨project, h₁, hconfigured, hrest⟩ := hrest
    split at hrest
    · next hread =>
      rw [ActionOn.runOn_bind_get] at hrest
      obtain ⟨listed, h₂, hlisted, hrest⟩ := ActionOn.runOn_bind_liftM_ok hrest
      rw [ActionOn.runOn_bind_modify] at hrest
      cases hrest
      refine ⟨project, h₁, listed, hconfigured, ?_, rfl⟩
      rw [if_pos hread]
      exact listed_of_databaseFiles hlisted
    · next hread =>
      cases hrest
      refine ⟨project, _, [], hconfigured, ?_, rfl⟩
      rw [if_neg hread]

end LintHooks.Runner
