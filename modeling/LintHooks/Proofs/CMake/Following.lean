import LintHooks.CMake.Project
import LintHooks.Proofs.Host.Invariant
import LintHooks.Proofs.Host.Told
set_option autoImplicit false

/-!
# CMake: what a leader leaves to its followers

Who follows does not run CMake and takes what the leader has left.  The files that CMake has
generated are read by everybody who wants to know them, though, and from a log that CMake writes
only if its leader wants to know them, too.  So a follower that asks for more than its leader finds
no log where CMake has done all that it was told to do, and this is the only way in which following
fails.

The main result is `follower_outcome`, for any settings of the two and any CMake that `Works`.  What
is done before the call does not matter (`runOn_configure`), and what is done after it can only fail
at the generated files (`runOn_conclude`).  So a follower fails just where reading them fails
(`runOn_follower`), which is where the log cannot be read (`readingOutcome_error_iff`), and a leader
leaves the log as CMake leaves it (`runOn_leader`).  A leader that has come to a good end could read
the log itself (`readingOutcome_of_leader`), unless it had no wish to.  `follower_fails` is a leader
and a follower that differ in that wish.
-/

namespace LintHooks.CMake

variable {launcher : Launcher} {h h' h₁ h₂ : Host} {p p' : Project} {dir log hookName : String}

/-- Notes about the lines of a log are all that reading it leaves behind. -/
theorem runOn_readTrace (content : String) (scope : TraceScope) :
    ∃ s, (readTrace content scope).runOn launcher h =
      (.ok (generatedFiles content scope), h.told s) := by
  have hbind : ∃ s, (readTrace content scope).runOn launcher h =
      (pure (generatedFiles content scope) : Action (List String)).runOn launcher (h.told s) := by
    refine Action.runOn_bind_told launcher h (Action.runOn_forM_told launcher h ?_ _)
    intro line h
    split
    · exact Action.runOn_debug launcher h _ _
    · exact ⟨"", by rw [h.told_empty]; rfl⟩
  exact hbind

namespace Project

/-! ## The configure step by its role -/

/-- The configure step makes the build directory, has its role settled and proceeds.  Other hooks
may change the host while it waits for its role, so what follows is described for any host. -/
theorem runOn_configure {role : ConfigureRole} (hp : p.noConfigure = false)
    (hdir : p.buildDir = some dir) (hmade : (makeBuildDir dir).runOn launcher h = (.ok (), h₁))
    (hrole : (ConfigureLock.ofBuildDir dir).acquire.runOn launcher h₁ = (.ok role, h₂)) :
    (configure hookName).runOn p launcher h =
      (p.proceed dir hookName role).runOn p launcher h₂ := by
  rw [configure, ActionOn.runOn_bind_get, hp, hdir]
  simp only [Bool.false_eq_true, if_false]
  rw [ActionOn.runOn_bind_liftM p hmade, ActionOn.runOn_bind_liftM p hrole]

/-- The host on which a leader has given back its locks. -/
def retired (h : Host) (locks : LockPair) : Host :=
  { h with locks := (h.locks.release locks.mainLock.number).release locks.tryLock.number }

theorem runOn_retire (launcher : Launcher) (h : Host) (l : ConfigureLock) (locks : LockPair) :
    (l.retire locks).runOn launcher h = (.ok (), retired h locks) := rfl

/-- After a success only the generated files are left to be read. -/
theorem conclude_success {o : ProcessOutput} (ho : o.success = true) :
    p.conclude o = match p.traceLog with
      | some log => readConfiguredFiles log
      | none => pure () := by
  rw [conclude, ho]
  rfl

/-- Only a success comes to a good end. -/
theorem success_of_conclude {o : ProcessOutput} {q : Project}
    (hrun : (p.conclude o).runOn q launcher h = ((.ok (), p'), h')) : o.success = true := by
  cases ho : o.success with
  | true => rfl
  | false =>
    rw [conclude, ho] at hrun
    obtain ⟨_, _, _, -, hrun⟩ := ActionOn.runOn_bind_ok hrun
    cases hrun

/-! ## A CMake that works -/

/-- The arguments that have CMake show its cache and do nothing else. -/
def query : List String := ["-N", "-LA"]

/-- Calling CMake on a project. -/
def launch (p : Project) (program : String) (front : List String) (dir : String)
    (extra : List String) : Launch :=
  ⟨program, front ++ p.sourceDir :: p.args ++ extra, some dir⟩

/-- CMake works for a project: every call of it succeeds, and asking for the cache leaves the log
alone. -/
structure Works (launcher : Launcher) (p : Project) (program : String) (front : List String)
    (dir : String) : Prop where
  command : p.command = some (program :: front)
  buildDir : p.buildDir = some dir
  succeeds : ∀ extra h, ∃ o, (launcher (p.launch program front dir extra) h).1 = .ok o ∧
    o.success = true
  keepsLog : ∀ log, p.traceLog = some log → ∀ h,
    (launcher (p.launch program front dir query) h).2.readText log = h.readText log

/-- How reading the generated files ends if CMake works. -/
def readingOutcome (p : Project) (h : Host) : Except Failure Unit :=
  match p.traceLog with
  | none => .ok ()
  | some log =>
    match h.readText log with
    | .ok _ => .ok ()
    | .error e => .error (.readingTraceLog log e)

theorem readingOutcome_error_iff {f : Failure} : p.readingOutcome h = .error f ↔
    ∃ log e, p.traceLog = some log ∧ h.readText log = .error e ∧ f = .readingTraceLog log e := by
  rw [readingOutcome]
  cases hlog : p.traceLog with
  | none => exact ⟨nofun, nofun⟩
  | some log => cases hread : h.readText log <;> simp [hread, eq_comm]

variable {program : String} {front : List String}

namespace Works

/-- A call succeeds, and up to notes in the log of the hook the host is left as CMake leaves it. -/
theorem runOn_call (hw : Works launcher p program front dir) (extra : List String) (h : Host) :
    ∃ o s, (p.call dir extra).runOn launcher h =
        (.ok o, (launcher (p.launch program front dir extra) h).2.told s) ∧ o.success = true := by
  obtain ⟨o, ho, hs⟩ := hw.succeeds extra h
  obtain ⟨s, hrun⟩ : ∃ s, (p.launch program front dir extra).run.runOn launcher h =
      (.ok o, (launcher (p.launch program front dir extra) h).2.told s) :=
    ⟨_, Launch.runOn_run_noted launcher h _ ho⟩
  let args := front ++ p.sourceDir :: p.args
  refine ⟨{ o with stdout := banner program args dir ++ o.stdout ++ "\n" }, s, ?_, hs⟩
  rw [call, hw.command]
  exact Action.runOn_bind_eq hrun

/-- Reading the generated files fails only where the log cannot be read, and leaves the log as it
is. -/
theorem runOn_readConfiguredFiles (hw : Works launcher p program front dir)
    (hlog : p.traceLog = some log) (h : Host) :
    ∃ p' h', (readConfiguredFiles log).runOn p launcher h = ((p.readingOutcome h, p'), h') ∧
      h'.readText log = h.readText log := by
  rw [readConfiguredFiles, Action.info,
    ActionOn.runOn_bind_liftM p (Action.runOn_tell_shown launcher h _ _ _)]
  generalize h.shown .cmake .info _ = s
  obtain ⟨o, s', hcall, ho⟩ := hw.runOn_call query (h.told s)
  have hread : ((launcher (p.launch program front dir query) (h.told s)).2.told s').readText log =
      h.readText log := hw.keepsLog log hlog (h.told s)
  generalize (launcher (p.launch program front dir query) (h.told s)).2.told s' = h₁ at hcall hread
  -- The files known so far are forgotten before the call, which does not depend on them.
  have hdir : ({ p with configuredFiles := [] } : Project).buildDir = some dir := hw.buildDir
  have hcall : (call { p with configuredFiles := [] } dir query).runOn launcher (h.told s) =
      (.ok o, h₁) := hcall
  rw [ActionOn.runOn_bind, ActionOn.runOn_modify]
  dsimp only
  generalize ({ p with configuredFiles := [] } : Project) = q at hdir hcall ⊢
  rw [ActionOn.runOn_bind_get, hdir]
  dsimp only
  rw [← query, ActionOn.runOn_bind_liftM q hcall, if_pos ho,
    ActionOn.runOn_bind_liftM _ (Action.runOn_host launcher h₁), hread, readingOutcome, hlog]
  dsimp only
  cases hcontent : h.readText log with
  | error e => exact ⟨_, _, rfl, hread.trans hcontent⟩
  | ok content =>
    obtain ⟨t, ht⟩ := runOn_readTrace content
      (TraceScope.ofProject q.sourceDir dir (CacheVariables.parse o.stdout))
    dsimp only
    rw [ActionOn.runOn_bind_liftM _ ht]
    exact ⟨_, _, rfl, hread.trans hcontent⟩

/-- After a success of CMake only reading the generated files can fail, and they could be read in
the same way once more. -/
theorem runOn_conclude (hw : Works launcher p program front dir) {o : ProcessOutput}
    (ho : o.success = true) (h : Host) :
    ∃ p' h', (p.conclude o).runOn p launcher h = ((p.readingOutcome h, p'), h') ∧
      p.readingOutcome h' = p.readingOutcome h := by
  rw [conclude_success ho]
  cases hlog : p.traceLog with
  | none =>
    rw [readingOutcome, hlog]
    exact ⟨p, h, rfl, by rw [readingOutcome, hlog]⟩
  | some log =>
    obtain ⟨p', h', hread, hkept⟩ := hw.runOn_readConfiguredFiles hlog h
    refine ⟨p', h', hread, ?_⟩
    rw [readingOutcome, readingOutcome, hlog]
    dsimp only
    rw [hkept]

/-! ## Leaders and followers -/

/-- Following fails only where reading the generated files fails. -/
theorem runOn_follower (hw : Works launcher p program front dir) (h : Host) :
    ((p.proceed dir hookName .follower).runOn p launcher h).1.1 = p.readingOutcome h := by
  obtain ⟨s, hs⟩ := Action.runOn_debug launcher h .cmake ("Command " ++ hookName ++ " with id "
    ++ toString h.processId ++ " did not run CMake configure and is done waiting")
  have hfollow : (p.configureAs dir hookName .follower).runOn launcher h = (.ok {}, h.told s) := by
    rw [configureAs, Action.runOn_bind_host]
    exact Action.runOn_bind_eq hs
  have hsuccess : ProcessOutput.success {} = true := rfl
  obtain ⟨_, _, hconclude, -⟩ := hw.runOn_conclude hsuccess (h.told s)
  rw [proceed, ActionOn.runOn_bind_liftM p hfollow, hconclude]
  rfl

/-- Where a leader has come to a good end, it could read the generated files again. -/
theorem readingOutcome_of_leader (hw : Works launcher p program front dir) {locks : LockPair}
    (hled : (p.proceed dir hookName (.leader locks)).runOn p launcher h = ((.ok (), p'), h')) :
    p.readingOutcome h' = .ok () := by
  obtain ⟨o, p₁, h₁, hconfigure, hend⟩ := ActionOn.runOn_bind_ok hled
  obtain rfl : p = p₁ := congrArg (·.1.2) hconfigure
  obtain ⟨_, h₂, hconclude, hkept⟩ := hw.runOn_conclude (success_of_conclude hend) h₁
  rw [hconclude] at hend
  obtain rfl : h₂ = h' := congrArg (·.2) hend
  rw [hkept]
  exact congrArg (·.1.1) hend

/-- A leader that need not empty the build directory, and whose call leaves the database there, has
run CMake with success.  The log is left as CMake leaves it. -/
theorem runOn_leader (hw : Works launcher p program front dir) (hclean : p.clean = false)
    (hdatabase : ∀ s, (launcher (p.launch program front dir p.traceArgs) (h.told s)).2.pathExists
      (CompileDatabase.pathIn dir) = true) (locks : LockPair) :
    ∃ o s h₁, (p.configureAs dir hookName (.leader locks)).runOn launcher h = (.ok o, h₁) ∧
      o.success = true ∧
      h₁.readText = (launcher (p.launch program front dir p.traceArgs) (h.told s)).2.readText := by
  obtain ⟨s, hs⟩ := Action.runOn_debug launcher h .cmake ("Command " ++ hookName ++ " with id "
    ++ toString h.processId ++ " is running CMake configure")
  obtain ⟨o, t, hcall, ho⟩ := hw.runOn_call p.traceArgs (h.told s)
  have hthere := hdatabase s
  generalize hleft : (launcher (p.launch program front dir p.traceArgs) (h.told s)).2 = h₁
    at hcall hthere
  have hrun : (p.runConfigure dir (ConfigureLock.ofBuildDir dir)).runOn launcher (h.told s) =
      (.ok o, h₁.told t) := by
    have hpassed : demandDatabase (h₁.told t) (CompileDatabase.pathIn dir) o = o := by
      have hthere : (h₁.told t).pathExists (CompileDatabase.pathIn dir) = true := hthere
      rw [demandDatabase, hthere]
      simp
    rw [runConfigure, hclean]
    simp only [Bool.false_eq_true, if_false]
    rw [Action.runOn_bind_eq hcall, Action.runOn_bind_host, hpassed]
    rfl
  obtain ⟨u, hu⟩ := Action.runOn_debug launcher (retired (h₁.told t) locks) .cmake
    ("Command " ++ hookName ++ " with id " ++ toString h.processId
      ++ " is done running CMake configure")
  refine ⟨o, s, (retired (h₁.told t) locks).told u, ?_, ho, ?_⟩
  · rw [configureAs, Action.runOn_bind_host]
    dsimp only
    rw [Action.runOn_bind_eq hs, Action.runOn_bind, Action.runOn_outcome, hrun]
    dsimp only
    rw [Action.runOn_bind_eq (runOn_retire ..), Action.runOn_bind_eq hu]
    rfl
  · rw [hleft]
    rfl

end Works

/-- A follower finds what its leader has left.  If the leader has come to a good end, following
fails only where the follower wants to know the generated files and the leader has left no log that
can be read; with settings that agree about the log this does not happen. -/
theorem follower_outcome {leader follower leader' : Project} {locks : LockPair}
    {name₁ name₂ program₁ program₂ : String} {front₁ front₂ : List String}
    (hl : Works launcher leader program₁ front₁ dir)
    (hf : Works launcher follower program₂ front₂ dir)
    (hled : (leader.proceed dir name₁ (.leader locks)).runOn leader launcher h =
      ((.ok (), leader'), h'))
    (hleft : ∀ log, follower.traceLog = some log → h₂.readText log = h'.readText log) :
    (∀ f, ((follower.proceed dir name₂ .follower).runOn follower launcher h₂).1.1 = .error f ↔
      ∃ log e, follower.traceLog = some log ∧ h'.readText log = .error e ∧
        f = .readingTraceLog log e) ∧
    (follower.traceLog = none ∨ follower.traceLog = leader.traceLog →
      ((follower.proceed dir name₂ .follower).runOn follower launcher h₂).1.1 = .ok ()) := by
  have hfound : follower.readingOutcome h₂ = follower.readingOutcome h' := by
    rw [readingOutcome, readingOutcome]
    cases hlog : follower.traceLog with
    | none => rfl
    | some log =>
      dsimp only
      rw [hleft log hlog]
  rw [hf.runOn_follower, hfound]
  refine ⟨fun f => readingOutcome_error_iff, ?_⟩
  rintro (hnone | hsame)
  · rw [readingOutcome, hnone]
  · rw [readingOutcome, hsame, ← readingOutcome]
    exact hl.readingOutcome_of_leader hled

/-! ### Projects that want to know different things -/

/-- A CMake that writes the log where it is told to, and succeeds. -/
def tracing : Launcher := fun l h =>
  (.ok {},
    if "--trace-redirect=/b/trace_log.json" ∈ l.args then
      { h with files := h.files.set ["b", "trace_log.json"] (.file .empty false) }
    else h)

/-- A build directory in which everything is there but the log. -/
def built : Host where
  files := ⟨[(["b"], .directory), (["b", "compile_commands.json"], .file .empty false)]⟩

/-- A project that does not want to know the generated files. -/
def incurious : Project where
  command := some ["cmake"]
  sourceDir := "/s"
  buildDir := some "/b"
  args := []
  noConfigure := false
  clean := false

/-- One that wants to know them. -/
def curious : Project := { incurious with traceLog := some "/b/trace_log.json" }

theorem works_incurious : Works tracing incurious "cmake" [] "/b" where
  command := rfl
  buildDir := rfl
  succeeds _ _ := ⟨{}, rfl, rfl⟩
  keepsLog := nofun

theorem works_curious : Works tracing curious "cmake" [] "/b" where
  command := rfl
  buildDir := rfl
  succeeds _ _ := ⟨{}, rfl, rfl⟩
  keepsLog log _ h := by
    have hargs : "--trace-redirect=/b/trace_log.json" ∉
        (curious.launch "cmake" [] "/b" query).args := by decide
    rw [tracing]
    dsimp only
    rw [if_neg hargs]

/-- A path of two names leads to what is below the directory of the first name. -/
theorem locate_child {files : FileSystem} {workDir : Location} {path dir name : String}
    {e : Option Entry}
    (hpath : path ≠ "" ∧ ¬ path.toList.contains '\x00' ∧ Path.isAbsolute path)
    (hsteps : FileSystem.steps path = [dir, name])
    (hnames : (dir ≠ "." ∧ dir ≠ "..") ∧ name ≠ "." ∧ name ≠ "..")
    (hdir : files.get? [dir] = some .directory) (he : files.get? [dir, name] = e)
    (hlink : ∀ target, e ≠ some (.link target)) :
    files.locate workDir path = if e.isSome then .ok [dir, name] else .error .notFound := by
  have hroot : files.get? [] = some .directory := rfl
  obtain ⟨⟨hdot, hdots⟩, hdot', hdots'⟩ := hnames
  rw [FileSystem.locate, if_neg hpath.1, if_neg hpath.2.1, if_pos hpath.2.2, hsteps]
  simp only [FileSystem.walk, hroot, hdot, hdots, if_false, List.nil_append, hdir]
  cases e with
  | none => simp [he, hdot', hdots']
  | some e =>
    cases e with
    | link target => exact absurd rfl (hlink target)
    | _ => simp [he, hdot', hdots']

theorem pathExists_database (hdir : h.files.get? ["b"] = some .directory)
    (he : h.files.get? ["b", "compile_commands.json"] = some (.file .empty false)) :
    h.pathExists "/b/compile_commands.json" = true := by
  have hsteps : FileSystem.steps "/b/compile_commands.json" = ["b", "compile_commands.json"] := by
    decide
  rw [Host.pathExists, FileSystem.pathExists, FileSystem.entry?,
    locate_child (by decide) hsteps (by decide) hdir he nofun]
  simp [he]

theorem readText_log (hdir : h.files.get? ["b"] = some .directory) :
    (h.files.get? ["b", "trace_log.json"] = none →
      h.readText "/b/trace_log.json" = .error .notFound) ∧
    (h.files.get? ["b", "trace_log.json"] = some (.file .empty false) →
      h.readText "/b/trace_log.json" = .ok "") := by
  have hsteps : FileSystem.steps "/b/trace_log.json" = ["b", "trace_log.json"] := by decide
  constructor
  · intro he
    rw [Host.readText, FileSystem.read, locate_child (by decide) hsteps (by decide) hdir he nofun]
    rfl
  · intro he
    rw [Host.readText, FileSystem.read, locate_child (by decide) hsteps (by decide) hdir he nofun]
    simp [he, bind, Except.bind]
    rfl

/-- The locks of a leader in that build directory. -/
def builtLocks : LockPair :=
  ⟨⟨0, ["b", ConfigureLock.tryName]⟩, ⟨1, ["b", ConfigureLock.mainName]⟩⟩

/-- A leader there leaves a log if it has CMake write one. -/
theorem Works.runOn_built (hw : Works tracing p "cmake" [] "/b") (hclean : p.clean = false)
    (hookName : String) :
    ∃ o h', (p.configureAs "/b" hookName (.leader builtLocks)).runOn tracing built = (.ok o, h') ∧
      o.success = true ∧
      h'.readText "/b/trace_log.json" =
        if "--trace-redirect=/b/trace_log.json" ∈ (p.launch "cmake" [] "/b" p.traceArgs).args then
          .ok ""
        else .error .notFound := by
  have hleft (s : String) : (tracing (p.launch "cmake" [] "/b" p.traceArgs) (built.told s)).2 =
      if "--trace-redirect=/b/trace_log.json" ∈ (p.launch "cmake" [] "/b" p.traceArgs).args then
        { built.told s with files := built.files.set ["b", "trace_log.json"] (.file .empty false) }
      else built.told s := rfl
  have hthere (s : String) : (tracing (p.launch "cmake" [] "/b" p.traceArgs)
      (built.told s)).2.pathExists "/b/compile_commands.json" = true := by
    rw [hleft]
    split <;> exact pathExists_database rfl rfl
  obtain ⟨o, s, h', hrun, ho, hread⟩ := hw.runOn_leader hclean hthere builtLocks
  refine ⟨o, h', hrun, ho, ?_⟩
  rw [hread, hleft]
  split
  · exact (readText_log rfl).2 rfl
  · exact (readText_log rfl).1 rfl

/-- CMake works and the leader comes to a good end, and still the follower fails. -/
theorem follower_fails : Works tracing incurious "cmake" [] "/b" ∧
    Works tracing curious "cmake" [] "/b" ∧ ∃ h',
    (incurious.proceed "/b" "leader" (.leader builtLocks)).runOn incurious tracing built =
      ((.ok (), incurious), h') ∧
    ((curious.proceed "/b" "follower" .follower).runOn curious tracing h').1.1 =
      .error (.readingTraceLog "/b/trace_log.json" .notFound) := by
  obtain ⟨o, h', hrun, ho, hread⟩ := works_incurious.runOn_built rfl "leader"
  rw [if_neg (by decide)] at hread
  refine ⟨works_incurious, works_curious, h', ?_, ?_⟩
  · rw [proceed, ActionOn.runOn_bind_liftM incurious hrun, conclude_success ho]
    rfl
  · rw [works_curious.runOn_follower, readingOutcome_error_iff]
    exact ⟨_, _, rfl, hread, rfl⟩

/-- With the same wishes as its leader the follower comes to a good end. -/
theorem follower_outcome_curious : ∃ curious' h',
    (curious.proceed "/b" "leader" (.leader builtLocks)).runOn curious tracing built =
      ((.ok (), curious'), h') ∧
    ((curious.proceed "/b" "follower" .follower).runOn curious tracing h').1.1 = .ok () := by
  obtain ⟨o, h₁, hrun, ho, hread⟩ := works_curious.runOn_built rfl "leader"
  rw [if_pos (by decide)] at hread
  obtain ⟨curious', h', hconclude, hkept⟩ := works_curious.runOn_conclude ho h₁
  have houtcome : curious.readingOutcome h₁ = .ok () := by
    have hlog : curious.traceLog = some "/b/trace_log.json" := rfl
    rw [readingOutcome, hlog]
    dsimp only
    rw [hread]
  have hled : (curious.proceed "/b" "leader" (.leader builtLocks)).runOn curious tracing built =
      ((.ok (), curious'), h') := by
    rw [proceed, ActionOn.runOn_bind_liftM curious hrun, hconclude, houtcome]
  exact ⟨curious', h', hled,
    (follower_outcome works_curious works_curious hled fun _ _ => rfl).2 (.inr rfl)⟩

end Project

end LintHooks.CMake
