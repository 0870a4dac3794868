import LintHooks.Proofs.CMake.BuildDir
import LintHooks.Proofs.CompileDatabase
import LintHooks.Proofs.Hook.Calls
import LintHooks.Proofs.Hook.Pattern
set_option autoImplicit false

/-!
# Hooks: target files

Which files a hook works on, and in which order.  What the command line names comes first, as far as
the hook handles it, then what the database lists, and then what CMake has generated.  A text that
comes again is passed over, so that each one is a target where it is first named.

The main result is `targets_prepared`.  Adding files one at a time comes to dropping those that are
there already (`addFiles_eq`), so that any number of additions is one (`addFiles_addFiles`), and the
rest is to know what is added: by the command line (`fileArgs_eq`), and by what a runner `TakesIn`
while it is made ready (`files_of_prepare`).  At the end stands a directory, `Desk`, where a runner
is made and made ready without any program having its say; other modules use it, too.
-/

namespace LintHooks

namespace Hook

/-- Files are added in their order, each where it comes first. -/
theorem addFiles_eq (files more : List String) :
    addFiles files more = files ++ (more.filter (· ∉ files)).eraseDups := by
  induction more generalizing files with
  | nil => simp
  | cons file more ih =>
    rw [addFiles_cons, ih, addFile]
    by_cases hf : file ∈ files
    · rw [if_pos (List.contains_iff_mem.2 hf), List.filter_cons_of_neg (by simpa using hf)]
    · -- what is the first of its kind behind the longer list is so behind its last member
      have hrest : more.filter (· ∉ files ++ [file]) =
          (more.filter (· ∉ files)).filter fun other => !other == file := by
        rw [List.filter_filter]
        refine List.filter_congr fun other _ => ?_
        by_cases ho : other = file
        · simp [ho]
        · simp [ho]
      rw [if_neg (by simpa using hf), List.filter_cons_of_pos (by simpa using hf),
        List.eraseDups_cons, hrest, List.append_assoc, List.singleton_append]

theorem addFiles_addFiles (files more others : List String) :
    addFiles (addFiles files more) others = addFiles files (more ++ others) := by
  unfold addFiles
  rw [List.foldl_append]

theorem mem_addFiles {files more : List String} {file : String} :
    file ∈ addFiles files more ↔ file ∈ files ∨ file ∈ more := by
  induction more generalizing files with
  | nil => simp
  | cons other more ih => rw [addFiles_cons, ih, mem_addFile, List.mem_cons, or_assoc]

/-- Of the files with some property the same ones are added, and where they are the first. -/
theorem filter_addFiles (p : String → Bool) (files more : List String) :
    (addFiles files more).filter p = addFiles (files.filter p) (more.filter p) := by
  induction more generalizing files with
  | nil => rfl
  | cons file more ih =>
    rw [addFiles_cons, ih]
    cases hp : p file with
    | false =>
      rw [List.filter_cons_of_neg (by rw [hp]; exact Bool.false_ne_true), addFile]
      split
      · rfl
      · rw [List.filter_append, List.filter_cons_of_neg (by rw [hp]; exact Bool.false_ne_true),
          List.filter_nil, List.append_nil]
    | true =>
      rw [List.filter_cons_of_pos hp, addFiles_cons]
      refine congrArg (addFiles · _) ?_
      by_cases hf : file ∈ files
      · rw [addFile, addFile, if_pos (List.contains_iff_mem.2 hf),
          if_pos (List.contains_iff_mem.2 (List.mem_filter.2 ⟨hf, hp⟩))]
      · rw [addFile, addFile, if_neg (by simpa using hf), if_neg (by simp [hf]),
          List.filter_append, List.filter_cons_of_pos hp, List.filter_nil]

theorem prefix_addFiles (files more : List String) : files <+: addFiles files more := by
  rw [addFiles_eq]
  exact List.prefix_append ..

theorem nil_addFiles (more : List String) : addFiles [] more = more.eraseDups := by
  rw [addFiles_eq]
  simp

theorem targets_eq (hook : Hook) (candidates : List String) :
    hook.targets candidates = (candidates.filter hook.handles).eraseDups :=
  nil_addFiles _

/-- Two of the hooks look at what stands behind the separator. -/
theorem fileArgs_eq (hook : Hook) (isFile : String → Bool) (files ddash : List String) :
    hook.fileArgs isFile files ddash =
      { candidates := files ++
          if hook ∈ [.clangTidy, .includeWhatYouUse] then ddash.filter isFile else ddash
        ddash :=
          if hook ∈ [.clangTidy, .includeWhatYouUse] then ddash.filter fun token => !isFile token
          else [] } := by
  cases hook <;> rfl

end Hook

namespace Runner

variable {hook : Hook} {i : Invocation} {s : Settings} {launcher : Launcher} {h h₁ h₂ : Host}
  {made r : Runner}

/-- What is taken in while a runner is made ready: the files that the database lists, if they are
wanted, and the ones that CMake has generated.  Both are as the configure step of the project has
left them. -/
structure TakesIn (hook : Hook) (made : Runner) (launcher : Launcher) (h : Host) (r : Runner)
    (listed : List String) : Prop where
  unread : made.settings.flag .readJsonDb = false → listed = []
  read : made.settings.flag .readJsonDb = true → ∃ h', Listed r.project h' listed ∧
    (CMake.Project.configure hook.commandName).runOn made.project launcher h =
      ((.ok (), r.project), h')
  generated : r.project.configuredFiles ≠ [] → ∃ h',
    r.project.Logged h' r.project.configuredFiles ∧
    (CMake.Project.configure hook.commandName).runOn made.project launcher h =
      ((.ok (), r.project), h')

/-- A runner that is ready has all that was taken in behind the files that it had before. -/
theorem files_of_prepare (hknown : made.project.configuredFiles = [])
    (hrun : (prepare hook).runOn made launcher h₁ = ((.ok (), r), h₂)) :
    ∃ listed, r.files = Hook.addFiles made.files (listed ++ r.project.configuredFiles) ∧
      TakesIn hook made launcher h₁ r listed := by
  rcases prepare_ok hrun with ⟨rfl, -, hmay⟩ | ⟨project, h, listed, hconfigured, hlisted, rfl⟩
  · rw [mayFindFiles, Bool.or_eq_false_iff] at hmay
    refine ⟨[], by rw [hknown]; rfl, fun _ => rfl, fun hread => ?_, fun hne => absurd hknown hne⟩
    rw [hmay.1] at hread
    cases hread
  · refine ⟨listed, Hook.addFiles_addFiles _ _ _, fun hread => ?_, fun hread => ?_, fun hne => ?_⟩
    · rwa [if_neg (by rw [hread]; exact Bool.false_ne_true)] at hlisted
    · rw [if_pos hread] at hlisted
      rw [Configured, hread, Bool.or_true, if_pos rfl] at hconfigured
      exact ⟨h, hlisted, hconfigured⟩
    · unfold Configured at hconfigured
      split at hconfigured
      · obtain ⟨found, rfl, hfound | hfound | hfound⟩ := CMake.Project.configure_ok hconfigured
        · exact absurd (hfound.trans hknown) hne
        · exact absurd hfound hne
        · exact ⟨h, hfound, hconfigured⟩
      · exact absurd (hconfigured.1 ▸ hknown) hne

/-- However it ends, what a runner has before it is made ready it still has afterwards. -/
theorem kept_of_prepare {result : Except Failure Unit}
    (hrun : (prepare hook).runOn made launcher h₁ = ((result, r), h₂)) :
    made.files <+: r.files ∧ r.ddash = made.ddash := by
  have hkeeps : ActionOn.Keeps (fun r => made.files <+: r.files ∧ r.ddash = made.ddash)
      (prepare hook) := by
    refine keeps_prepare hook (fun _ _ hr => hr) fun more r hr => ⟨?_, hr.2⟩
    exact hr.1.trans (Hook.prefix_addFiles r.files more)
  have hkept := hkeeps made launcher h₁ ⟨List.prefix_rfl, rfl⟩
  rwa [hrun] at hkept

/-- The target files of a hook, and what is left for its tool behind the separator.  The files of
the command line are those whose names end in a point and an extension of the hook, which is what
the pattern of the hook says.  Behind them come the files that are taken in, whatever their names
are, and nowhere on the way is a text repeated or a file lost. -/
theorem targets_prepared (hmade : (ofInvocation hook i s).runOn launcher h = (.ok made, h₁)) :
    (∀ file, hook.handles file = true ↔ ∃ e ∈ hook.extensions, ∃ stem, file = stem ++ "." ++ e) ∧
    (∀ file, hook.handles file = true ↔ FilePattern.Found hook.filePattern file) ∧
    made.files = ((i.files ++ if hook ∈ [.clangTidy, .includeWhatYouUse] then
        i.ddash.filter h₁.isFile else i.ddash).filter hook.handles).eraseDups ∧
    made.ddash = (if hook ∈ [.clangTidy, .includeWhatYouUse] then
        i.ddash.filter fun token => !h₁.isFile token else []) ∧
    made.files.Nodup ∧
    ∀ result r h₂, (prepare hook).runOn made launcher h₁ = ((result, r), h₂) →
      r.files.Nodup ∧ made.files <+: r.files ∧ r.ddash = made.ddash ∧
      (result = .ok () → ∃ listed, TakesIn hook made launcher h₁ r listed ∧
        r.files = made.files ++
          ((listed ++ r.project.configuredFiles).filter (· ∉ made.files)).eraseDups ∧
        ∀ file, file ∈ r.files ↔
          file ∈ made.files ∨ file ∈ listed ∨ file ∈ r.project.configuredFiles) := by
  have hdistinct : made.files.Nodup := distinct_ofInvocation hook i s launcher h made h₁ hmade
  obtain ⟨tool, project, hproject, heq⟩ := ofInvocation_ok hmade
  have hknown : made.project.configuredFiles = [] := by
    rw [heq]
    exact hproject
  refine ⟨fun _ => Hook.handles_iff, fun _ => Hook.found_filePattern_iff.symm, ?_, ?_, hdistinct,
    fun result r h₂ hrun => ?_⟩
  · rw [heq, Hook.targets_eq, Hook.fileArgs_eq]
  · rw [heq, Hook.fileArgs_eq]
  have hr : r.files.Nodup := by
    have hkept := distinct_prepare hook made launcher h₁ hdistinct
    rwa [hrun] at hkept
  obtain ⟨hbefore, hddash⟩ := kept_of_prepare hrun
  refine ⟨hr, hbefore, hddash, ?_⟩
  rintro rfl
  obtain ⟨listed, hfiles, htakes⟩ := files_of_prepare hknown hrun
  refine ⟨listed, htakes, ?_, fun file => ?_⟩
  · rw [hfiles, Hook.addFiles_eq]
  · rw [hfiles, Hook.mem_addFiles, List.mem_append]

end Runner

/-! ## A desk

A source directory with a build directory in it, whose database lists two files: the first one by
its path from the root, the second one by its name alone. -/

namespace Desk

open FileSystem

def files : FileSystem :=
  ⟨[(["bin"], .directory), (["bin", "clang-tidy"], .file .empty true), (["w"], .directory),
    (["w", "x.cpp"], .file .empty false), (["w", "b"], .directory),
    (["w", "b", "CMakeCache.txt"], .file .empty false),
    (["w", "b", "compile_commands.json"], .file
      (Text.encode "[\x7b\"file\":\"/w/a.c\"\x7d,\x7b\"file\":\"x.cpp\"\x7d]") false)]⟩

def host : Host where
  files := files
  workDir := ["w"]
  environment := [("PATH", "/bin")]

/-- CMake is not to be run, and the files of the database are wanted. -/
def settings : Settings :=
  ((({} : Settings).setText .cmake (some "/bin/cmake")).setList .buildDir (some ["b"])).setFlag
    .noCMakeConfigure (some true) |>.setFlag .readJsonDb (some true)

/-- No program has anything to say. -/
def still : Launcher := fun _ h => (.ok {}, h)

def invocation : Invocation :=
  { files := ["a.c", "notes.txt", "a.c"], ddash := ["x.cpp", "-DX", "-DX"] }

def project : CMake.Project where
  command := some ["/bin/cmake"]
  sourceDir := "/w"
  buildDir := some "/w/b"
  args := ["-DCMAKE_EXPORT_COMPILE_COMMANDS:BOOL=ON"]
  noConfigure := true
  clean := false

def made : Runner where
  tool := "/bin/clang-tidy"
  toolArgs := ["-p=/w/b/compile_commands.json"]
  files := ["a.c", "x.cpp"]
  ddash := ["-DX", "-DX"]
  settings := settings
  project := project

theorem sound : files.Sound := .of_entries (by decide)

theorem locate_here : files.locate ["w"] "." = .ok ["w"] := by
  refine (locate_directory_iff rfl).2 ⟨by decide, by decide, 0, Nat.zero_le _, ?_⟩
  have hnames : names "." = ["."] := by decide
  rw [hnames]
  exact .here rfl .nil

theorem isExecutable_tool : host.isExecutable "/bin/clang-tidy" = true := by
  have hpath : Path.join (render ["bin"]) "clang-tidy" = "/bin/clang-tidy" := by decide
  have htool : files.locate ["w"] (Path.join (render ["bin"]) "clang-tidy") = _ :=
    locate_join_of_get? (by decide) (by decide) (locate_render sound rfl) rfl rfl nofun
  rw [hpath] at htool
  rw [Host.isExecutable, FileSystem.isExecutable, entry?, host, htool]
  rfl

theorem find_tool : Tool.find? host ["clang-tidy"] = some "/bin/clang-tidy" := by
  have hcandidates : Tool.candidates host "clang-tidy" = ["/bin/clang-tidy"] := by decide
  have hlocate : Tool.locate? host "clang-tidy" = some "/bin/clang-tidy" := by
    rw [Tool.locate?, hcandidates, List.find?_cons_of_pos isExecutable_tool]
  rw [Tool.find?, List.findSome?_cons, hlocate]

theorem check_settings : settings.check.runOn still host = (.ok (), host) := by
  have hdir : host.isDirectory "." = true := isDirectory_iff.2 ⟨_, locate_here, rfl⟩
  have hproblem : settings.problem? host = none := by
    have hsource : settings.sourceDir = "." := rfl
    rw [Settings.problem?, hsource, hdir]
    rfl
  rw [Settings.check, Action.runOn_bind_host, hproblem]
  rfl

theorem ofSettings_settings :
    (CMake.Project.ofSettings settings).runOn still host = (.ok project, host) := by
  have hbuild : files.locate ["w"] "b" = .ok ["w", "b"] :=
    locate_name (by decide) (by decide) rfl rfl nofun
  have hcache : CMake.hasCache host "b" = true := CMake.hasCache_of_file hbuild rfl ⟨_, _, rfl⟩
  have hselect : CMake.BuildDirChoice.select host ⟨"/w", ["b"], true, true⟩ =
      .ok (.located "/w/b") := by
    rw [CMake.BuildDirChoice.select, List.find?_cons_of_pos hcache]
    dsimp only
    rw [CMake.normalDir_of_locate hbuild rfl]
    rfl
  have hcommand : (CMake.Project.commandOf settings).runOn still host =
      (.ok (some ["/bin/cmake"]), host) := by
    have hcmake : settings.texts .cmake = some "/bin/cmake" := rfl
    have habsolute : host.absolute? "/bin/cmake" = some "/bin/cmake" := by decide
    rw [CMake.Project.commandOf, hcmake]
    dsimp only
    rw [Action.runOn_bind_host, habsolute]
    rfl
  have hresolve : (CMake.Project.resolveBuildDir ["b"] true).runOn { project with buildDir := none }
      still host = ((.ok (), project), host) := by
    unfold CMake.Project.resolveBuildDir
    rw [ActionOn.runOn_bind_get, ActionOn.runOn_bind_liftM _ (Action.runOn_host still host)]
    dsimp only
    have hselect' : CMake.BuildDirChoice.select host ⟨project.sourceDir, ["b"], true,
      project.noConfigure⟩ = _ := hselect
    rw [hselect']
    rfl
  have hstart : ((CMake.Project.resolveBuildDir ["b"] true).startingFrom
      { project with buildDir := none }).runOn still host = (.ok ((), project), host) := by
    rw [ActionOn.runOn_startingFrom, hresolve]
    rfl
  have hsource : settings.sourceDir = "." := rfl
  rw [CMake.Project.ofSettings, Action.runOn_bind_eq hcommand, Action.runOn_bind_host, hsource,
    CMake.normalDir_of_locate locate_here rfl]
  exact Action.runOn_bind_eq hstart

/-- A runner is made here, for two of the files. -/
theorem ofInvocation_made :
    (Runner.ofInvocation .clangTidy invocation settings).runOn still host = (.ok made, host) := by
  have hrequire : (Tool.require Hook.clangTidy.executables (Runner.purpose .clangTidy)
      Hook.clangTidy.installHint).runOn still host = (.ok "/bin/clang-tidy", host) := by
    rw [Tool.require, Action.runOn_bind_host]
    have hfind : Tool.find? host Hook.clangTidy.executables = _ := find_tool
    rw [hfind]
    rfl
  have htold : (Action.debug .hooks ("using " ++ Hook.clangTidy.name ++ " at "
      ++ "/bin/clang-tidy")).runOn still host = (.ok (), host) := rfl
  have hversion : settings.texts .version = none := rfl
  have hargs : Hook.clangTidy.fileArgs host.isFile invocation.files invocation.ddash =
      ⟨["a.c", "notes.txt", "a.c", "x.cpp"], ["-DX", "-DX"]⟩ := by
    have hthere : host.isFile "x.cpp" = true :=
      isFile_iff.2 ⟨_, locate_name (by decide) (by decide) rfl rfl nofun, _, _, rfl⟩
    have hmissing : host.isFile "-DX" = false := by
      refine Bool.eq_false_iff.2 fun hfile => ?_
      obtain ⟨loc, hlocate, hloc⟩ := isFile_iff.1 hfile
      obtain ⟨-, -, k, -, hleads⟩ := locate_eq_ok_iff.1 hlocate
      have hname : Path.IsName "-DX" := by decide
      have hsteps : steps "-DX" = ["-DX"] := by decide
      have hnone : files.get? ["w", "-DX"] = none := rfl
      rw [hsteps] at hleads
      rcases hleads.of_single hname with ⟨_, he⟩ | ⟨-, _, he⟩ <;> cases hnone.symm.trans he
    simp [Hook.fileArgs, invocation, Hook.splitsDdash, hthere, hmissing]
  rw [Runner.ofInvocation, Action.runOn_bind_eq hrequire, Action.runOn_bind_eq htold, hversion]
  dsimp only
  rw [Action.runOn_bind_eq check_settings, Action.runOn_bind_eq ofSettings_settings,
    Action.runOn_bind_host, hargs]
  rfl

/-- The runner takes in what the database lists, and so one of its files under a second name. -/
theorem prepare_made : (Runner.prepare .clangTidy).runOn made still host =
    ((.ok (), { made with files := ["a.c", "x.cpp", "/w/a.c"] }), host) := by
  have hread : host.files.read host.workDir "/w/b/compile_commands.json" = .ok (Text.encode
      "[\x7b\"file\":\"/w/a.c\"\x7d,\x7b\"file\":\"x.cpp\"\x7d]") := by
    have hpath : Path.join (render ["w", "b"]) CompileDatabase.fileName =
      "/w/b/compile_commands.json" := by decide
    have hlocate :
        files.locate ["w"] (Path.join (render ["w", "b"]) CompileDatabase.fileName) = _ :=
      locate_join_of_get? (by decide) (by decide) (locate_render sound rfl) rfl rfl nofun
    rw [hpath] at hlocate
    rw [FileSystem.read, host, hlocate]
    rfl
  have hparse : CompileDatabase.parse
      "[\x7b\"file\":\"/w/a.c\"\x7d,\x7b\"file\":\"x.cpp\"\x7d]" =
        .ok [{ file := "/w/a.c" }, { file := "x.cpp" }] := by
    decide +kernel
  have hdatabase : made.databaseFiles.runOn still host = (.ok ["/w/a.c", "x.cpp"], host) := by
    have hrun := CompileDatabase.runOn_sourceFiles still hread
    rw [hparse] at hrun
    exact hrun
  have hconfigure : (Runner.onProject (CMake.Project.configure Hook.clangTidy.commandName)).runOn
      made still host = ((.ok (), made), host) := rfl
  have hreadDb : made.settings.flag .readJsonDb = true := rfl
  rw [Runner.prepare, ActionOn.runOn_bind_get]
  dsimp only
  rw [if_neg (by decide), if_pos (by decide), ActionOn.runOn_bind, hconfigure]
  dsimp only
  rw [if_pos hreadDb, ActionOn.runOn_bind_get, ActionOn.runOn_bind_liftM made hdatabase]
  rfl

end Desk

/-- Of the files at the desk one is not handled and one comes twice, and the database is read. -/
theorem Runner.targets_prepared_desk :
    (ofInvocation .clangTidy Desk.invocation Desk.settings).runOn Desk.still Desk.host =
      (.ok Desk.made, Desk.host) ∧
    Desk.made.files = ["a.c", "x.cpp"] ∧ Desk.made.ddash = ["-DX", "-DX"] ∧
    ∃ listed, TakesIn .clangTidy Desk.made Desk.still Desk.host
      { Desk.made with files := ["a.c", "x.cpp", "/w/a.c"] } listed ∧ "/w/a.c" ∈ listed := by
  obtain ⟨-, -, -, -, -, hprepared⟩ := targets_prepared Desk.ofInvocation_made
  obtain ⟨-, -, -, htaken⟩ := hprepared _ _ _ Desk.prepare_made
  obtain ⟨listed, htakes, -, hmem⟩ := htaken rfl
  have hlisted : "/w/a.c" ∈ Desk.made.files ∨ "/w/a.c" ∈ listed ∨
      "/w/a.c" ∈ Desk.made.project.configuredFiles := (hmem "/w/a.c").1 (by decide)
  refine ⟨Desk.ofInvocation_made, rfl, rfl, listed, htakes, ?_⟩
  rcases hlisted with hnamed | hlisted | hgenerated
  · exact absurd hnamed (by decide)
  · exact hlisted
  · cases hgenerated

end LintHooks
