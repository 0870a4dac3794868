import LintHooks.Proofs.CMake.Following
set_option autoImplicit false

/-!
# CMake: what a project knows of generated files

A project starts out with no generated files, and the configure step is the only thing that tells it
of any.  A step that has come to a good end has left the rest of the project alone, and the files
that the project then knows of are those of its log, in the order of the log.

The main statement is `configure_ok`, which is what the theorems on targets take from the configure
step: after it a project knows of no other files than before, of none, or of those that are
`Logged`.  The branches of the step are followed to where it ends well.  All but one of them never
touch what is known, and that one is `readConfiguredFiles_ok`.  Before the step nothing is known: a
project is made from settings with an empty list (`yields_ofSettings`), and choosing the build
directory adds nothing to it (`keeps_resolveBuildDir`).
-/

namespace LintHooks.CMake.Project

variable {launcher : Launcher} {h h' : Host} {p p' : Project} {hookName : String}

/-- Choosing the build directory tells nothing of generated files. -/
theorem keeps_resolveBuildDir (candidates : List String) (discovery : Bool) :
    ActionOn.Keeps (fun p => p.configuredFiles = []) (resolveBuildDir candidates discovery) := by
  unfold resolveBuildDir
  refine ActionOn.keeps_bind_get fun p hp => ?_
  refine ActionOn.keeps_bind (ActionOn.keeps_liftM _) fun h => ?_
  split
  · exact fun _ _ _ hs => hs
  · refine ActionOn.keeps_bind (ActionOn.keeps_liftM _) fun _ => ?_
    exact fun _ _ _ _ => hp

theorem yields_ofSettings (s : Settings) :
    Action.Yields (fun p => p.configuredFiles = []) (ofSettings s) := by
  unfold ofSettings
  refine Action.yields_bind fun command => Action.yields_bind fun h => ?_
  split
  · intro launcher h p h' hrun
    cases hrun
  · intro launcher h p h' hrun
    obtain ⟨⟨_, q⟩, h₁, hresolve, hrun⟩ := Action.runOn_bind_ok hrun
    have hq : q.configuredFiles = [] := ActionOn.yields_startingFrom
      (keeps_resolveBuildDir s.buildDirs s.automaticDiscovery) rfl launcher h _ h₁ hresolve
    cases hrun
    exact hq

/-- The files that the log of a project says are generated, given some cache. -/
def Logged (p : Project) (h : Host) (found : List String) : Prop :=
  ∃ dir log content cache, p.buildDir = some dir ∧ p.traceLog = some log ∧
    h.readText log = .ok content ∧
    found = generatedFiles content (TraceScope.ofProject p.sourceDir dir cache)

/-- Reading the generated files leaves the rest of a project alone.  Where CMake does not show its
cache, none are known afterwards. -/
theorem readConfiguredFiles_ok {log : String} (hlog : p.traceLog = some log)
    (hrun : (readConfiguredFiles log).runOn p launcher h = ((.ok (), p'), h')) :
    ∃ found, p' = { p with configuredFiles := found } ∧ (found = [] ∨ p.Logged h' found) := by
  unfold readConfiguredFiles at hrun
  obtain ⟨_, h₁, -, hrun⟩ := ActionOn.runOn_bind_liftM_ok hrun
  rw [ActionOn.runOn_bind_modify, ActionOn.runOn_bind_get] at hrun
  dsimp only at hrun
  split at hrun
  · have hp : { p with configuredFiles := [] } = p' := congrArg (·.1.2) hrun
    exact ⟨[], hp.symm, .inl rfl⟩
  · next dir hdir =>
    obtain ⟨o, h₂, -, hrun⟩ := ActionOn.runOn_bind_liftM_ok hrun
    split at hrun
    · obtain ⟨h₃, _, hhost, hrun⟩ := ActionOn.runOn_bind_liftM_ok hrun
      cases hhost
      split at hrun
      · cases hrun
      · next content hcontent =>
        obtain ⟨files, h₄, hread, hrun⟩ := ActionOn.runOn_bind_liftM_ok hrun
        obtain ⟨s, hs⟩ := @runOn_readTrace launcher h₂ content
          (TraceScope.ofProject p.sourceDir dir (CacheVariables.parse o.stdout))
        cases hs.symm.trans hread
        cases hrun
        exact ⟨_, rfl, .inr ⟨dir, log, content, _, hdir, hlog, hcontent, rfl⟩⟩
    · have hp : { p with configuredFiles := [] } = p' := congrArg (·.1.2) hrun
      exact ⟨[], hp.symm, .inl rfl⟩

/-- The configure step leaves the rest of a project alone. -/
theorem configure_ok (hrun : (configure hookName).runOn p launcher h = ((.ok (), p'), h')) :
    ∃ found, p' = { p with configuredFiles := found } ∧
      (found = p.configuredFiles ∨ found = [] ∨ p.Logged h' found) := by
  unfold configure at hrun
  rw [ActionOn.runOn_bind_get] at hrun
  split at hrun
  · have hp : p = p' := congrArg (·.1.2) hrun
    exact ⟨p.configuredFiles, hp.symm, .inl rfl⟩
  · split at hrun
    · cases hrun
    · next dir _ =>
      obtain ⟨_, h₁, -, hrun⟩ := ActionOn.runOn_bind_liftM_ok hrun
      obtain ⟨role, h₂, -, hrun⟩ := ActionOn.runOn_bind_liftM_ok hrun
      unfold proceed at hrun
      obtain ⟨o, h₃, -, hrun⟩ := ActionOn.runOn_bind_liftM_ok hrun
      rw [conclude_success (success_of_conclude hrun)] at hrun
      split at hrun
      · next log hlog =>
        obtain ⟨found, hp, hfound⟩ := readConfiguredFiles_ok hlog hrun
        exact ⟨found, hp, .inr hfound⟩
      · have hp : p = p' := congrArg (·.1.2) hrun
        exact ⟨p.configuredFiles, hp.symm, .inl rfl⟩

end LintHooks.CMake.Project
