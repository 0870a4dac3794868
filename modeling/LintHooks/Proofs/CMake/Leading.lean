import LintHooks.Proofs.CMake.Acquiring
import LintHooks.Proofs.CMake.Following
set_option autoImplicit false

/-!
# CMake: how leading ends

A leader may have the build directory emptied, then calls CMake and looks for the database that it
should have left.  Each of these can fail, and the locks are given back all the same: what runs
between taking and giving them back is run for its outcome.  Unless CMake itself meddles with them,
nobody holds a lock on the files then, and the files are there for the next hook.  One of them can
be lost only where a link with its name points at something that is emptied away.

The main result is `configure_leading`.  What a leader does between taking and giving back the locks
is `lead`, and `Exit` lists the ways in which it ends, each with its result, the host it leaves and
what it shows; that these are all is `exists_exit`.  The rest is read off the list: when the end is
a good one (`Exit.ok_iff`), and that the lock files are still there if CMake itself has `Spared`
them (`Exit.spared`), since emptying the directory spares them, too (`runOn_prepare`).  The locks
are given back in one place, around all of this (`runOn_configureAs_leader`), and after it the files
are free (`grants_retired`).  `led_of_leading` puts these together for a hook that is `Leading`.
The lock file that is lost all the same is `configure_loses_lock`.
-/

namespace LintHooks.CMake.Project

variable {launcher : Launcher} {h h' h₁ h₂ : Host} {p : Project} {dir hookName : String}
  {locks : LockPair} {root : Location}

/-! ## Before the call -/

/-- How the log names a hook. -/
def who (h : Host) (hookName : String) : String :=
  "Command " ++ hookName ++ " with id " ++ toString h.processId

/-- What a leader does before it calls CMake. -/
def prepare (p : Project) (dir hookName : String) : Action Unit := do
  Action.debug .cmake (who (← Action.host) hookName ++ " is running CMake configure")
  if p.clean then cleanBuildDir dir (ConfigureLock.ofBuildDir dir)

/-- Calling CMake and looking for the database. -/
def callForDatabase (p : Project) (dir : String) : Action ProcessOutput := do
  let o ← p.call dir p.traceArgs
  pure (demandDatabase (← Action.host) (CompileDatabase.pathIn dir) o)

/-- What a leader does between taking and giving back the locks. -/
def lead (p : Project) (dir hookName : String) : Action ProcessOutput := do
  p.prepare dir hookName
  p.callForDatabase dir

theorem runOn_runConfigure (launcher : Launcher) (h : Host) (p : Project) (dir hookName : String) :
    (p.runConfigure dir (ConfigureLock.ofBuildDir dir)).runOn launcher
        (h.told (h.shown .cmake .debug (who h hookName ++ " is running CMake configure"))) =
      (p.lead dir hookName).runOn launcher h := by
  have hprepare : (p.prepare dir hookName).runOn launcher h =
      (if p.clean then cleanBuildDir dir (ConfigureLock.ofBuildDir dir) else pure ()).runOn launcher
        (h.told (h.shown .cmake .debug (who h hookName ++ " is running CMake configure"))) := by
    rw [prepare, Action.runOn_bind_host, Action.debug,
      Action.runOn_bind_eq (Action.runOn_tell_shown ..)]
  rw [lead, Action.runOn_bind, hprepare]
  generalize h.told _ = h₀
  cases hclean : p.clean with
  | false =>
    rw [runConfigure, hclean]
    rfl
  | true =>
    rw [runConfigure, hclean]
    simp only [if_true]
    rw [Action.runOn_bind]
    rfl

/-- The locks are given back however leading ends. -/
theorem runOn_configureAs_leader {r : Except Failure ProcessOutput} {left : Host}
    (hlead : (p.lead dir hookName).runOn launcher h = (r, left)) :
    (p.configureAs dir hookName (.leader locks)).runOn launcher h =
      (r, (retired left locks).told
        (left.shown .cmake .debug (who h hookName ++ " is done running CMake configure"))) := by
  have houtcome : (p.runConfigure dir (ConfigureLock.ofBuildDir dir)).outcome.runOn launcher
      (h.told (h.shown .cmake .debug (who h hookName ++ " is running CMake configure"))) =
      (.ok r, left) := by
    rw [Action.runOn_outcome, runOn_runConfigure, hlead]
  rw [configureAs, Action.runOn_bind_host]
  dsimp only
  rw [← who, Action.debug, Action.runOn_bind_eq (Action.runOn_tell_shown ..),
    Action.runOn_bind_eq houtcome, Action.runOn_bind_eq (runOn_retire ..), Action.debug,
    Action.runOn_bind_eq (Action.runOn_tell_shown ..)]
  cases r <;> rfl

/-! ## The exits -/

/-- Calling CMake on a project is a launch. -/
def Calls (p : Project) (dir : String) (l : Launch) : Prop :=
  ∃ program front, p.command = some (program :: front) ∧ l = p.launch program front dir []

/-- The failure of a project without CMake. -/
def missingCMake : Failure :=
  .report (.missingTool "cmake" "generating the compilation database" Hint.cmake)

/-- The failure of a configure step that has run. -/
def configureFailed (code : Int) : Failure :=
  .report (.ofConfigure "see output for more information" code)

/-- The note about a database that is not there. -/
def missingDatabase (dir : String) : String :=
  "\nUnable to locate " ++ CompileDatabase.pathIn dir ++ "\n\n"

/-- What is shown of a run of CMake: how it was called and what it has written. -/
def transcript (l : Launch) (dir : String) (o : ProcessOutput) : String :=
  banner l.program l.args dir ++ o.stdout ++ "\n"

/-- The ways in which a leader comes to an end once the build directory is or is not emptied: its
result, the host on which it gives the locks back, and what it copies to standard output and
standard error. -/
inductive Exit (launcher : Launcher) (p : Project) (dir : String) :
    Except Failure Unit → Host → Except Failure Unit → Host → String → String → Prop where
  | cleaning {f : Failure} {h : Host} : Exit launcher p dir (.error f) h (.error f) h "" ""
  | missing {h : Host} : p.command = none →
    Exit launcher p dir (.ok ()) h (.error missingCMake) h "" ""
  | empty {h : Host} : p.command = some [] →
    Exit launcher p dir (.ok ()) h (.error .emptyCommand) h "" ""
  | spawn {h left : Host} {l : Launch} {e : OsError} : p.Calls dir l →
    launcher l h = (.error e, left) →
    Exit launcher p dir (.ok ()) h (.error (.executing l.program e)) left "" ""
  | failed {h left : Host} {l : Launch} {o : ProcessOutput} : p.Calls dir l →
    launcher l h = (.ok o, left) → o.exitCode ≠ 0 →
    Exit launcher p dir (.ok ()) h (.error (configureFailed o.exitCode))
      (left.told (Launch.noted left l o)) (transcript l dir o) o.stderr
  | noDatabase {h left : Host} {l : Launch} {o : ProcessOutput} : p.Calls dir l →
    launcher l h = (.ok o, left) → o.exitCode = 0 →
    left.pathExists (CompileDatabase.pathIn dir) = false →
    Exit launcher p dir (.ok ()) h (.error (configureFailed 1))
      (left.told (Launch.noted left l o)) (transcript l dir o) (o.stderr ++ missingDatabase dir)
  | success {h left : Host} {l : Launch} {o : ProcessOutput} : p.Calls dir l →
    launcher l h = (.ok o, left) → o.exitCode = 0 →
    left.pathExists (CompileDatabase.pathIn dir) = true →
    Exit launcher p dir (.ok ()) h (.ok ()) (left.told (Launch.noted left l o)) "" ""

/-- A host to whose streams something is copied. -/
def echoed (h : Host) (out err : String) : Host :=
  { h with stdout := h.stdout ++ out, stderr := h.stderr ++ err }

theorem echoed_empty (h : Host) : echoed h "" "" = h := by
  rw [echoed, String.append_empty, String.append_empty]

theorem demandDatabase_eq_self {o : ProcessOutput} {database : String}
    (h' : o.exitCode ≠ 0 ∨ h.pathExists database = true) : demandDatabase h database o = o := by
  rw [demandDatabase, if_neg]
  rw [ProcessOutput.success, Bool.and_eq_true, beq_iff_eq, Bool.not_eq_true']
  rintro ⟨hexit, hmissing⟩
  rcases h' with hfailed | hthere
  · exact hfailed hexit
  · rw [hmissing] at hthere
    cases hthere

theorem demandDatabase_missing {o : ProcessOutput} (hexit : o.exitCode = 0)
    (hmissing : h.pathExists (CompileDatabase.pathIn dir) = false) :
    demandDatabase h (CompileDatabase.pathIn dir) o =
      { o with exitCode := 1, stderr := o.stderr ++ missingDatabase dir } := by
  have hlost : (o.success && !h.pathExists (CompileDatabase.pathIn dir)) = true := by
    rw [ProcessOutput.success, hexit, hmissing]
    rfl
  have happend (a b c d : String) : a ++ b ++ c ++ d = a ++ (b ++ c ++ d) := by
    simp only [String.append_assoc]
  have hnote : o.stderr ++ "\nUnable to locate " ++ CompileDatabase.pathIn dir ++ "\n\n" =
      o.stderr ++ missingDatabase dir := happend ..
  rw [demandDatabase, if_pos hlost, hnote]

/-- A project that does not want to know the generated files just shows the output of a failure. -/
theorem runOn_conclude (htrace : p.traceLog = none) (o : ProcessOutput) (h : Host) :
    (p.conclude o).runOn p launcher h =
      if o.exitCode = 0 then ((.ok (), p), h)
      else ((.error (configureFailed o.exitCode), p), echoed h o.stdout o.stderr) := by
  by_cases hexit : o.exitCode = 0
  · rw [if_pos hexit, conclude_success (by simpa [ProcessOutput.success] using hexit), htrace]
    rfl
  · have hfailure : o.success = false := by simpa [ProcessOutput.success] using hexit
    rw [if_neg hexit, conclude, hfailure]
    rfl

/-- A program that cannot be started fails. -/
theorem runOn_run_error {l : Launch} {e : OsError} {left : Host}
    (hl : launcher l h = (.error e, left)) :
    l.run.runOn launcher h = (.error (.executing l.program e), left) := by
  have hlaunch : (Action.launch l).runOn launcher h =
      (.ok (launcher l h).1, (launcher l h).2) := rfl
  rw [hl] at hlaunch
  rw [Launch.run, Action.runOn_bind_eq hlaunch]
  rfl

theorem runOn_callForDatabase_error {l : Launch} {e : OsError} {left : Host}
    (htrace : p.traceLog = none) (hcalls : p.Calls dir l) (hl : launcher l h = (.error e, left)) :
    (p.callForDatabase dir).runOn launcher h = (.error (.executing l.program e), left) := by
  obtain ⟨program, front, hcommand, rfl⟩ := hcalls
  have hrun := runOn_run_error hl
  rw [launch] at hrun
  rw [callForDatabase, traceArgs, htrace, call, hcommand]
  dsimp only
  rw [Action.runOn_bind, Action.runOn_bind, hrun]
  rfl

theorem runOn_callForDatabase_ok {l : Launch} {o : ProcessOutput} {left : Host}
    (htrace : p.traceLog = none) (hcalls : p.Calls dir l) (hl : launcher l h = (.ok o, left)) :
    (p.callForDatabase dir).runOn launcher h =
      (.ok (demandDatabase left (CompileDatabase.pathIn dir)
        { o with stdout := transcript l dir o }), left.told (Launch.noted left l o)) := by
  obtain ⟨program, front, hcommand, rfl⟩ := hcalls
  have hrun := Launch.runOn_run_noted launcher h (p.launch program front dir [])
    (congrArg Prod.fst hl)
  rw [hl] at hrun
  rw [callForDatabase, traceArgs, htrace, call, hcommand, transcript]
  simp only [launch, List.append_nil] at hrun ⊢
  rw [Action.runOn_bind, Action.runOn_bind_eq hrun]
  rfl

/-- What is concluded from the output of a leader. -/
theorem runOn_proceed_leader {r : Except Failure ProcessOutput} {left : Host} (locks : LockPair)
    (hlead : (p.lead dir hookName).runOn launcher h = (r, left)) :
    (p.proceed dir hookName (.leader locks)).runOn p launcher h =
      match r with
      | .ok o => (p.conclude o).runOn p launcher ((retired left locks).told
          (left.shown .cmake .debug (who h hookName ++ " is done running CMake configure")))
      | .error f => ((.error f, p), (retired left locks).told
          (left.shown .cmake .debug (who h hookName ++ " is done running CMake configure"))) := by
  rw [proceed, ActionOn.runOn_bind, ActionOn.runOn_liftM, runOn_configureAs_leader hlead]
  cases r <;> rfl

/-- How a leader ends once it is settled whether the build directory is emptied. -/
theorem exists_exit {begun : Except Failure Unit} (htrace : p.traceLog = none)
    (hprepare : (p.prepare dir hookName).runOn launcher h = (begun, h₁)) (locks : LockPair) :
    ∃ result left out err, Exit launcher p dir begun h₁ result left out err ∧
      (p.proceed dir hookName (.leader locks)).runOn p launcher h =
        ((result, p), echoed ((retired left locks).told (left.shown .cmake .debug
          (who h hookName ++ " is done running CMake configure"))) out err) := by
  cases begun with
  | error f =>
    have hlead : (p.lead dir hookName).runOn launcher h = (.error f, h₁) := by
      rw [lead, Action.runOn_bind, hprepare]
    exact ⟨_, _, _, _, .cleaning, by rw [runOn_proceed_leader locks hlead, echoed_empty]⟩
  | ok _ =>
    have hlead := Action.runOn_bind_eq (k := fun _ => p.callForDatabase dir) hprepare
    rcases hcommand : p.command with _ | _ | ⟨program, front⟩
    · have hcall : (p.callForDatabase dir).runOn launcher h₁ = (.error missingCMake, h₁) := by
        rw [callForDatabase, call, hcommand]
        rfl
      exact ⟨_, _, _, _, .missing hcommand,
        by rw [runOn_proceed_leader locks (hlead.trans hcall), echoed_empty]⟩
    · have hcall : (p.callForDatabase dir).runOn launcher h₁ = (.error .emptyCommand, h₁) := by
        rw [callForDatabase, call, hcommand]
        rfl
      exact ⟨_, _, _, _, .empty hcommand,
        by rw [runOn_proceed_leader locks (hlead.trans hcall), echoed_empty]⟩
    · have hcalls : p.Calls dir (p.launch program front dir []) := ⟨program, front, hcommand, rfl⟩
      rcases hl : launcher (p.launch program front dir []) h₁ with ⟨e | o, left⟩
      · have hcall := runOn_callForDatabase_error htrace hcalls hl
        exact ⟨_, _, _, _, .spawn hcalls hl,
          by rw [runOn_proceed_leader locks (hlead.trans hcall), echoed_empty]⟩
      · have hrun := runOn_proceed_leader locks
          (hlead.trans (runOn_callForDatabase_ok htrace hcalls hl))
        dsimp only at hrun
        rw [runOn_conclude htrace] at hrun
        generalize hran : ({ o with stdout := _ } : ProcessOutput) = ran at hrun
        have hcode : ran.exitCode = o.exitCode := by rw [← hran]
        by_cases hexit : o.exitCode = 0
        · cases hthere : left.pathExists (CompileDatabase.pathIn dir) with
          | true =>
            rw [demandDatabase_eq_self (.inr hthere), hcode, if_pos hexit] at hrun
            exact ⟨_, _, _, _, .success hcalls hl hexit hthere, by rw [hrun, echoed_empty]⟩
          | false =>
            rw [demandDatabase_missing (hcode.trans hexit) hthere, if_neg Int.one_ne_zero,
              ← hran] at hrun
            exact ⟨_, _, _, _, .noDatabase hcalls hl hexit hthere, hrun⟩
        · rw [demandDatabase_eq_self (.inl (hcode ▸ hexit)), hcode, if_neg hexit, ← hran] at hrun
          exact ⟨_, _, _, _, .failed hcalls hl hexit, hrun⟩

/-! ## The lock files and the locks -/

/-- What happens between two hosts leaves the lock files and the locks on them alone. -/
structure Spared (locks : LockPair) (root : Location) (h h' : Host) : Prop where
  entries : ∀ name ∈ ConfigureLock.names,
    h'.files.get? (root ++ [name]) = h.files.get? (root ++ [name])
  files : ∀ file ∈ [locks.tryLock.file, locks.mainLock.file], h'.files.get? file = h.files.get? file
  held : ∀ l ∈ h'.locks.held, l.file ∈ [locks.tryLock.file, locks.mainLock.file] → l ∈ h.locks.held

theorem Spared.refl (locks : LockPair) (root : Location) (h : Host) : Spared locks root h h where
  entries _ _ := rfl
  files _ _ := rfl
  held _ hl _ := hl

/-- Before the call the build directory goes, if it is to be emptied, or a part of it if that fails.
Reports are made by CMake only. -/
theorem runOn_prepare {begun : Except Failure Unit} (hleading : Leading h dir locks root)
    (hprepare : (p.prepare dir hookName).runOn launcher h = (begun, h₁)) :
    ∃ s files, h₁ = { h.told s with files } ∧ Cleared root h.files files ∧
      (p.clean = false → files = h.files) ∧
      (begun = .ok () → p.clean = true → ∀ l, Clutter root l → files.get? l = none) ∧
      ∀ r, begun ≠ .error (.report r) := by
  rw [prepare, Action.runOn_bind_host, Action.debug,
    Action.runOn_bind_eq (Action.runOn_tell_shown ..)] at hprepare
  generalize h.shown .cmake .debug _ = s at hprepare
  cases hclean : p.clean with
  | false =>
    rw [hclean] at hprepare
    cases hprepare
    refine ⟨s, h.files, rfl, .refl _ _, fun _ => rfl, ?_, ?_⟩
    · rintro - ⟨⟩
    · rintro _ ⟨⟩
  | true =>
    rw [hclean] at hprepare
    simp only [if_true] at hprepare
    obtain ⟨result, files, hrun, hcleared, hend⟩ :=
      runOn_cleanBuildDir launcher (h := h.told s) hleading.rooted hleading.holds
    rw [hrun] at hprepare
    cases hprepare
    refine ⟨s ++ cleaningNote h dir, files, ?_, hcleared, ?_, ?_, ?_⟩
    · rw [h.told_told]
      rfl
    · rintro ⟨⟩
    · rintro rfl -
      rcases hend with ⟨-, hgone⟩ | ⟨_, _, herror | herror⟩
      · exact hgone
      · cases herror
      · cases herror
    · rintro r rfl
      rcases hend with ⟨herror, -⟩ | ⟨_, _, herror | herror⟩ <;> cases herror

/-- A leader gives the locks back on the host that it started its call on, or on the one that CMake
has left. -/
theorem Exit.spared {begun result : Except Failure Unit} {left : Host} {out err : String}
    (hexit : Exit launcher p dir begun h result left out err)
    (hcalls : ∀ l, p.Calls dir l → Spared locks root h (launcher l h).2) :
    Spared locks root h left := by
  cases hexit with
  | cleaning | missing | empty => exact .refl ..
  | spawn hl hrun =>
    have hspared := hcalls _ hl
    rwa [hrun] at hspared
  | failed hl hrun | noDatabase hl hrun | success hl hrun =>
    have hspared := hcalls _ hl
    rw [hrun] at hspared
    exact ⟨hspared.entries, hspared.files, hspared.held⟩

/-- A leader comes to a good end if all of this does: emptying the build directory, starting CMake,
CMake itself, and finding the database. -/
theorem Exit.ok_iff {begun result : Except Failure Unit} {left : Host} {out err : String}
    (hexit : Exit launcher p dir begun h result left out err) :
    result = .ok () ↔ begun = .ok () ∧ ∃ l o, p.Calls dir l ∧ (launcher l h).1 = .ok o ∧
      o.exitCode = 0 ∧ (launcher l h).2.pathExists (CompileDatabase.pathIn dir) = true := by
  -- there is one launch that calls CMake
  have hunique {l l' : Launch} (hl : p.Calls dir l) (hl' : p.Calls dir l') : l = l' := by
    obtain ⟨program, front, hcommand, rfl⟩ := hl
    obtain ⟨program', front', hcommand', rfl⟩ := hl'
    rw [hcommand] at hcommand'
    cases hcommand'
    rfl
  cases hexit with
  | cleaning => exact ⟨nofun, fun hend => nomatch hend.1⟩
  | missing hcommand | empty hcommand =>
    refine ⟨nofun, ?_⟩
    rintro ⟨-, l, o, ⟨program, front, hcommand', -⟩, -⟩
    cases hcommand.symm.trans hcommand'
  | spawn hl hrun =>
    refine ⟨nofun, ?_⟩
    rintro ⟨-, l, o, hl', hok, -⟩
    rw [← hunique hl hl', hrun] at hok
    cases hok
  | failed hl hrun hcode =>
    refine ⟨nofun, ?_⟩
    rintro ⟨-, l, o, hl', hok, hzero, -⟩
    rw [← hunique hl hl', hrun] at hok
    cases hok
    exact absurd hzero hcode
  | noDatabase hl hrun hcode hthere =>
    refine ⟨nofun, ?_⟩
    rintro ⟨-, l, o, hl', -, -, hthere'⟩
    rw [← hunique hl hl', hrun] at hthere'
    cases hthere.symm.trans hthere'
  | success hl hrun hcode hthere =>
    exact ⟨fun _ => ⟨rfl, _, _, hl, congrArg Prod.fst hrun, hcode, by rw [hrun]; exact hthere⟩,
      fun _ => rfl⟩

/-- After both handles are released nothing is held on their files that was not held by others. -/
theorem grants_retired {left : Host} (honly : left.locks.OnlyBy locks) {file : Location}
    (hfile : file ∈ [locks.tryLock.file, locks.mainLock.file]) (handle : Nat) (mode : LockMode) :
    (retired left locks).locks.grants handle file mode = true := by
  refine LockTable.grants_iff.2 fun l hl _ hon => ?_
  obtain ⟨hl, htry⟩ := LockTable.mem_release.1 hl
  obtain ⟨hl, hmain⟩ := LockTable.mem_release.1 hl
  rcases honly l hl (hon ▸ hfile) with hown | hown
  · exact absurd hown htry
  · exact absurd hown hmain

/-! ## The configure step of a leader -/

/-- How a leader leaves the directory that it has led in.  It led on `h` and has come to `h₁` once
it was settled with the outcome `begun` whether the directory is emptied. -/
structure Led (launcher : Launcher) (p : Project) (dir hookName : String) (locks : LockPair)
    (root : Location) (h : Host) (begun : Except Failure Unit) (h₁ : Host)
    (result : Except Failure Unit) (h' : Host) : Prop where
  /-- It takes one of the exits, and all that it does then is to give the locks back, to tell the
  log so and to copy what is to be shown. -/
  exit : ∃ left out err, Exit launcher p dir begun h₁ result left out err ∧
    h' = echoed ((retired left locks).told (left.shown .cmake .debug
      (who h hookName ++ " is done running CMake configure"))) out err
  /-- It comes to a good end just where everything goes well and the database is there. -/
  ok_iff : result = .ok () ↔ begun = .ok () ∧ ∃ l o, p.Calls dir l ∧ (launcher l h₁).1 = .ok o ∧
    o.exitCode = 0 ∧ (launcher l h₁).2.pathExists (CompileDatabase.pathIn dir) = true
  /-- Everybody can have the locks. -/
  free : ∀ file ∈ [locks.tryLock.file, locks.mainLock.file], ∀ handle mode,
    h'.locks.grants handle file mode = true
  /-- The directory has the entries of the lock files. -/
  entries : ∀ name ∈ ConfigureLock.names, ∃ e, h.files.get? (root ++ [name]) = some e ∧
    h'.files.get? (root ++ [name]) = some e
  /-- The files are there, unless they were in the directory under another name and went with what
  was in it. -/
  kept : ∀ file ∈ [locks.tryLock.file, locks.mainLock.file],
    h'.files.FileAt file ∨ p.clean = true ∧ Clutter root file

theorem led_of_leading {begun : Except Failure Unit} (htrace : p.traceLog = none)
    (hleading : Leading h dir locks root)
    (hprepare : (p.prepare dir hookName).runOn launcher h = (begun, h₁))
    (hcalls : ∀ l, p.Calls dir l → Spared locks root h₁ (launcher l h₁).2) :
    ∃ result h', (p.proceed dir hookName (.leader locks)).runOn p launcher h = ((result, p), h') ∧
      Led launcher p dir hookName locks root h begun h₁ result h' := by
  obtain ⟨result, left, out, err, hexit, hrun⟩ := exists_exit htrace hprepare locks
  obtain ⟨s, files, rfl, hcleared, hclean, -⟩ := runOn_prepare hleading hprepare
  have hspared := hexit.spared hcalls
  refine ⟨result, _, hrun, ⟨left, out, err, hexit, rfl⟩, hexit.ok_iff, ?_, ?_, ?_⟩
  · intro file hfile handle mode
    exact grants_retired (fun l hl hon => hleading.onlyBy l (hspared.held l hl hon) hon) hfile
      handle mode
  · intro name hname
    obtain ⟨e, he⟩ := Option.isSome_iff_exists.1 (hleading.holds.entry hname)
    refine ⟨e, he, (hspared.entries name hname).trans ?_⟩
    rcases hcleared (root ++ [name]) with hsame | ⟨-, hclutter⟩
    · exact hsame.trans he
    · exact absurd hclutter (not_clutter hname)
  · intro file hfile
    obtain ⟨c, x, he⟩ := hleading.fileAt file hfile
    have hleft : left.files.get? file = files.get? file := hspared.files file hfile
    rcases hcleared file with hsame | ⟨hgone, hclutter⟩
    · exact .inl ⟨c, x, hleft.trans (hsame.trans he)⟩
    · refine .inr ⟨?_, hclutter⟩
      cases hflag : p.clean with
      | true => rfl
      | false =>
        rw [hclean hflag, he] at hgone
        cases hgone

/-- A hook that must not configure leaves everything as it is but for a note in the log.  One that
leads comes to a good end just where the build directory is emptied if need be, CMake is found,
started and succeeds and its database is there; it shows what CMake has written only where it has
failed; and if CMake itself leaves the lock files alone, they are free and in the directory
afterwards, whatever has happened. -/
theorem configure_leading {h₂ h₃ : Host} {begun : Except Failure Unit} (hr : h.files.Rooted) :
    (p.noConfigure = true → ∃ s,
      (configure hookName).runOn p launcher h = ((.ok (), p), h.told s)) ∧
    (p.noConfigure = false → p.traceLog = none → p.buildDir = some dir →
      (makeBuildDir dir).runOn launcher h = (.ok (), h₁) →
      (ConfigureLock.ofBuildDir dir).acquire.runOn launcher h₁ = (.ok (.leader locks), h₂) →
      (p.prepare dir hookName).runOn launcher h₂ = (begun, h₃) →
      ∃ root, Leading h₂ dir locks root ∧
        ((∀ l, p.Calls dir l → Spared locks root h₃ (launcher l h₃).2) →
          ∃ result h', (configure hookName).runOn p launcher h = ((result, p), h') ∧
            Led launcher p dir hookName locks root h₂ begun h₃ result h')) := by
  constructor
  · intro hno
    refine ⟨h.shown .cmake .debug "Not calling CMake configure", ?_⟩
    rw [configure, ActionOn.runOn_bind_get, hno, Action.debug]
    simp only [if_true]
    rw [ActionOn.runOn_liftM, Action.runOn_tell_shown]
  · intro hno htrace hdir hmade hrole hprepare
    obtain ⟨-, hr₁, -⟩ := runOn_makeBuildDir_ok hr hmade
    obtain ⟨root, -, hleader⟩ := settled_of_acquire hr₁ hrole
    have hleading := hleader locks rfl
    refine ⟨root, hleading, fun hcalls => ?_⟩
    rw [runOn_configure hno hdir hmade hrole]
    exact led_of_leading htrace hleading hprepare hcalls

/-! ### A lock file among what is emptied away -/

/-- A CMake that writes an empty database. -/
def writing : Launcher := fun _ h =>
  (.ok {}, { h with files := h.files.set ["b", CompileDatabase.fileName] (.file .empty false) })

/-- A build directory in which the name of the main lock file is a link to another file. -/
def linkedLock : Host where
  files := ⟨[(["b"], .directory), (["b", ConfigureLock.mainName], .link "real"),
    (["b", "real"], .file .empty false)]⟩

/-- A project whose build directory is emptied. -/
def tidy : Project := { incurious with clean := true }

/-- The locks of a leader there. -/
def linkedLocks : LockPair := ⟨⟨0, ["b", ConfigureLock.tryName]⟩, ⟨1, ["b", "real"]⟩⟩

/-- The host on which it leads. -/
def linkedHeld : Host :=
  { linkedLock with
    files := linkedLock.files.set ["b", ConfigureLock.tryName] (.file .empty false)
    locks := ⟨[linkedLocks.mainLock.locked .exclusive, linkedLocks.tryLock.locked .exclusive]⟩
    nextHandle := 2 }

/-- The host on which it empties the directory. -/
def linkedTold : Host := linkedHeld.told (cleaningNote linkedHeld "/b")

/-- The host on which it calls CMake. -/
def linkedCleared : Host :=
  { linkedTold with files := linkedTold.files.eraseTree ["b", "real"] }

section Run

variable {files : FileSystem} {name : String}

theorem leads_b (hb : files.get? ["b"] = some .directory) :
    FileSystem.Leads files 0 (FileSystem.origin [] "/b") (FileSystem.names "/b") ["b"] := by
  have hnames : FileSystem.names "/b" = ["b"] := by decide
  rw [hnames]
  exact .step rfl (by decide) (by decide) hb nofun .nil

theorem locate_b (hb : files.get? ["b"] = some .directory) (w : FileSystem.Walk) :
    files.locate [] "/b" w = .ok ["b"] := by
  have hsteps : FileSystem.steps "/b" = ["b"] := by decide
  rw [FileSystem.locate, if_neg (by decide), if_neg (by decide), hsteps, ite_self,
    FileSystem.walk_step rfl (by decide) (by decide) hb (by rintro _ ⟨⟩), FileSystem.walk]
  rfl

theorem locate_in_b (hb : files.get? ["b"] = some .directory) (hname : Path.IsName name)
    (hnul : '\x00' ∉ name.toList) (w : FileSystem.Walk) :
    files.locate [] (Path.join "/b" name) w = files.walk w 40 ["b"] [name] := by
  have hnames : FileSystem.names "/b" = ["b"] := by decide
  rw [FileSystem.locate_join_walk hname hnul (by decide), hnames]
  exact FileSystem.walk_step rfl (by decide) (by decide) hb nofun

/-- An empty file in a directory is where its name says. -/
theorem walk_empty {w : FileSystem.Walk} {n : Nat} (hb : files.get? ["b"] = some .directory)
    (hname : Path.IsName name) (he : files.get? ["b", name] = some (.file .empty false)) :
    files.walk w n ["b"] [name] = .ok ["b", name] := by
  rw [FileSystem.walk_step hb hname.not_here hname.not_up he nofun, FileSystem.walk]
  rfl

theorem locate_linked {w : FileSystem.Walk} (hb : files.get? ["b"] = some .directory)
    (hlink : files.get? ["b", ConfigureLock.mainName] = some (.link "real"))
    (hfollow : w.follow = true) :
    files.locate [] (Path.join "/b" ConfigureLock.mainName) w =
      files.walk w 39 ["b"] ["real"] := by
  have hsteps : FileSystem.steps "real" = ["real"] := by decide
  rw [locate_in_b hb (by decide) (by decide),
    FileSystem.walk_link hb (by decide) (by decide) hlink (by decide) (by simp [hfollow]), hsteps]
  rfl

theorem linked_rooted : linkedLock.files.Rooted :=
  FileSystem.Sound.rooted (.of_entries (by decide))

theorem linked_makeBuildDir :
    (makeBuildDir "/b").runOn writing linkedLock = (.ok (), linkedLock) := by
  have hplain : String.ofList (Path.trimReversed "/b".toList.reverse).reverse = "/b" := by
    have hreverse : "/b".toList.reverse = ['b', '/'] := by decide
    rw [hreverse, Path.trimReversed] <;> simp
  have hmade : linkedLock.files.makeDirectories linkedLock.workDir "/b" = .ok linkedLock.files :=
    FileSystem.makeDirectories_of_there hplain (locate_b rfl) rfl
  rw [makeBuildDir, Action.runOn_bind_host, hmade]
  rfl

theorem linked_acquire : (ConfigureLock.ofBuildDir "/b").acquire.runOn writing linkedLock =
    (.ok (.leader linkedLocks), linkedHeld) := by
  have htry : linkedLock.files.openOrCreate [] (Path.join "/b" ConfigureLock.tryName) =
      .ok (linkedHeld.files, ["b", ConfigureLock.tryName]) := by
    rw [FileSystem.openOrCreate, FileSystem.writable, locate_in_b rfl (by decide) (by decide),
      FileSystem.walk]
    rfl
  have hmain : linkedHeld.files.openOrCreate [] (Path.join "/b" ConfigureLock.mainName) =
      .ok (linkedHeld.files, ["b", "real"]) := by
    rw [FileSystem.openOrCreate, FileSystem.writable, locate_linked rfl rfl rfl,
      walk_empty rfl (by decide) rfl]
    rfl
  exact ConfigureLock.runOn_acquire_of_free htry hmain (by decide) rfl

theorem linked_leading : Leading linkedHeld "/b" linkedLocks ["b"] := by
  obtain ⟨root, hholds, hleading⟩ := settled_of_acquire linked_rooted linked_acquire
  obtain ⟨_, hleads⟩ := hholds.leads
  obtain rfl : ["b"] = root := hleads.unique (leads_b rfl)
  exact hleading linkedLocks rfl

/-- The file that the link points to is removed like any other. -/
theorem linked_removeEntry :
    (removeEntry (ConfigureLock.ofBuildDir "/b") (Path.join "/b" "real")).runOn writing linkedTold =
      (.ok (), linkedCleared) := by
  have hlocate (w : FileSystem.Walk) :
      linkedTold.files.locate linkedTold.workDir (Path.join "/b" "real") w = .ok ["b", "real"] :=
    (locate_in_b rfl (by decide) (by decide) w).trans (walk_empty rfl (by decide) rfl)
  have hfile : linkedTold.isDirectory (Path.join "/b" "real") = false := by
    rw [Host.isDirectory, FileSystem.isDirectory, FileSystem.entry?, hlocate]
    rfl
  have hplain : (ConfigureLock.ofBuildDir "/b").isLockFile (Path.join "/b" "real") = false := by
    rw [← Bool.not_eq_true, ConfigureLock.isLockFile_join_iff (by decide)]
    decide
  have hremoved : linkedTold.files.removeFile linkedTold.workDir (Path.join "/b" "real") =
      .ok (linkedTold.files.eraseTree ["b", "real"]) := by
    rw [FileSystem.removeFile, hlocate]
    rfl
  rw [removeEntry, Action.runOn_bind_host, hfile, hplain, hremoved]
  rfl

theorem linked_prepare :
    (tidy.prepare "/b" "hook").runOn writing linkedHeld = (.ok (), linkedCleared) := by
  have hnote : (Action.debug .cmake (who linkedHeld "hook" ++ " is running CMake configure")).runOn
      writing linkedHeld = (.ok (), linkedHeld) := by
    rw [Action.debug, Action.runOn_tell_shown, Host.shown, Host.shows, linkedHeld]
    exact congrArg _ (Host.told_empty _)
  have hinfo : (Terminal.info ("Cleaning build directory " ++ "/b")).runOn writing linkedHeld =
      (.ok (), linkedTold) := rfl
  have hlist : linkedTold.files.list linkedTold.workDir "/b" =
      .ok [ConfigureLock.tryName, ConfigureLock.mainName, "real"] :=
    FileSystem.list_eq_ok_iff.2 ⟨["b"], (FileSystem.locate_directory_iff rfl).2
      ⟨by decide, by decide, 0, by decide, leads_b rfl⟩, rfl, rfl⟩
  have hlock (name : String) (hname : name ∈ ConfigureLock.names) :
      (removeEntry (ConfigureLock.ofBuildDir "/b") (Path.join "/b" name)).runOn writing linkedTold =
        (.ok (), linkedTold) :=
    runOn_removeEntry_lock writing linked_leading.holds (.refl _) hname
  have hclean : tidy.clean = true := rfl
  rw [prepare, Action.runOn_bind_host, Action.runOn_bind_eq hnote, hclean]
  simp only [if_true]
  rw [cleanBuildDir, Action.runOn_bind_eq hinfo, Action.runOn_bind_host, hlist]
  dsimp only
  simp only [List.map_cons, List.map_nil, List.forM_eq_forM, List.forM_cons]
  rw [Action.runOn_bind_eq (hlock _ (by decide)), Action.runOn_bind_eq (hlock _ (by decide)),
    Action.runOn_bind_eq linked_removeEntry]
  rfl

theorem writing_spared (l : Launch) :
    Spared linkedLocks ["b"] linkedCleared (writing l linkedCleared).2 := by
  have hset (loc : Location) (hloc : loc ≠ ["b", CompileDatabase.fileName]) :
      (writing l linkedCleared).2.files.get? loc = linkedCleared.files.get? loc := by
    rw [writing]
    dsimp only
    rw [FileSystem.get?_set _ (by decide), if_neg hloc]
  refine ⟨fun name hname => hset _ ?_, fun file hfile => hset _ ?_, fun _ hl _ => hl⟩
  · simp only [ConfigureLock.names, List.mem_cons, List.not_mem_nil, or_false] at hname
    rcases hname with rfl | rfl <;> decide
  · simp only [linkedLocks, List.mem_cons, List.not_mem_nil, or_false] at hfile
    rcases hfile with rfl | rfl <;> decide

theorem writing_database (l : Launch) :
    (writing l linkedCleared).2.pathExists (CompileDatabase.pathIn "/b") = true := by
  have hlocate : (writing l linkedCleared).2.files.locate (writing l linkedCleared).2.workDir
      (CompileDatabase.pathIn "/b") = .ok ["b", CompileDatabase.fileName] :=
    (locate_in_b rfl (by decide) (by decide) _).trans (walk_empty rfl (by decide) rfl)
  rw [Host.pathExists, FileSystem.pathExists, FileSystem.entry?, hlocate]
  rfl

/-- The leader comes to a good end. -/
theorem linked_ok {root : Location} {result : Except Failure Unit} {h' : Host}
    (hled : Led writing tidy "/b" "hook" linkedLocks root linkedHeld (.ok ()) linkedCleared
      result h') : result = .ok () :=
  hled.ok_iff.2 ⟨rfl, tidy.launch "cmake" [] "/b" [], {}, ⟨"cmake", [], rfl, rfl⟩, rfl, rfl,
    writing_database _⟩

end Run

theorem configure_leading_linked : ∃ root h', Leading linkedHeld "/b" linkedLocks root ∧
    (configure "hook").runOn tidy writing linkedLock = ((.ok (), tidy), h') ∧
    Led writing tidy "/b" "hook" linkedLocks root linkedHeld (.ok ()) linkedCleared (.ok ())
      h' := by
  obtain ⟨root, hleading, hled⟩ := (configure_leading linked_rooted).2 rfl rfl rfl
    linked_makeBuildDir linked_acquire linked_prepare
  obtain ⟨_, hleads⟩ := hleading.holds.leads
  obtain rfl : ["b"] = root := hleads.unique (leads_b rfl)
  obtain ⟨result, h', hrun, hled⟩ := hled fun l _ => writing_spared l
  obtain rfl := linked_ok hled
  exact ⟨["b"], h', hleading, hrun, hled⟩

/-- CMake leaves the lock files alone and all goes well, and still one of them is gone. -/
theorem configure_loses_lock :
    (ConfigureLock.ofBuildDir "/b").acquire.runOn writing linkedLock =
      (.ok (.leader linkedLocks), linkedHeld) ∧
    linkedHeld.pathExists (Path.join "/b" ConfigureLock.mainName) = true ∧
    (∀ l, Spared linkedLocks ["b"] linkedCleared (writing l linkedCleared).2) ∧
    ∃ h', (configure "hook").runOn tidy writing linkedLock = ((.ok (), tidy), h') ∧
      h'.pathExists (Path.join "/b" ConfigureLock.mainName) = false := by
  have hfound : linkedHeld.files.locate linkedHeld.workDir
      (Path.join "/b" ConfigureLock.mainName) = .ok ["b", "real"] :=
    (locate_linked rfl rfl rfl).trans (walk_empty rfl (by decide) rfl)
  have hlost {g : Host} (hwork : g.workDir = []) (hfiles : g.files =
      linkedCleared.files.set ["b", CompileDatabase.fileName] (.file .empty false)) :
      g.pathExists (Path.join "/b" ConfigureLock.mainName) = false := by
    rw [Host.pathExists, FileSystem.pathExists, FileSystem.entry?, hwork, hfiles,
      locate_linked rfl rfl rfl, FileSystem.walk]
    rfl
  refine ⟨linked_acquire, ?_, writing_spared, ?_⟩
  · rw [Host.pathExists, FileSystem.pathExists, FileSystem.entry?, hfound]
    rfl
  · obtain ⟨result, h', hrun, hled⟩ := led_of_leading (p := tidy) rfl linked_leading linked_prepare
      fun l _ => writing_spared l
    obtain rfl := linked_ok hled
    refine ⟨h', by rw [runOn_configure rfl rfl linked_makeBuildDir linked_acquire, hrun], ?_⟩
    obtain ⟨left, out, err, hexit, rfl⟩ := hled.exit
    cases hexit with
    | success _ hwritten =>
      obtain rfl := congrArg Prod.snd hwritten
      exact hlost rfl rfl

end LintHooks.CMake.Project
