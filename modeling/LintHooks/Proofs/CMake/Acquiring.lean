import LintHooks.Proofs.CMake.Cleaning
import LintHooks.Proofs.CMake.Election
set_option autoImplicit false

/-!
# CMake: what settling a role leaves behind

A hook makes its build directory, opens the two lock files in it and asks for the locks.  This adds
directories and empty files to the file system and takes nothing away.  Who comes to lead has both
locks alone, on the files that the paths of the lock files lead to.

The main statement is `settled_of_acquire`: whoever has found its role has found the build directory
with the lock files in it, and a leader is `Leading` there.  It comes from `runOn_acquire_ok`, which
takes settling a role apart: the two files are opened (`Opened.of_openOrCreate`), and the requests
follow the stages of a process one after the other (`runOn_go_ok`).  That a lock which is got alone
is held alone afterwards is `Takes.onlyBy`.  Where nothing is held the role can be foreseen:
`runOn_acquire_of_free` says that whoever can open the files leads.
-/

namespace LintHooks

/-- What is held on files on which nothing else is held: only the locks of one process. -/
def LockTable.OnlyBy (t : LockTable) (pair : CMake.LockPair) : Prop :=
  ∀ l ∈ t.held, l.file ∈ [pair.tryLock.file, pair.mainLock.file] → pair.Owns l

namespace CMake

variable {launcher : Launcher} {h h' : Host} {dir path : String} {root : Location}
  {locks : LockPair}

/-! ## The build directory -/

theorem runOn_makeBuildDir_ok (hr : h.files.Rooted)
    (hrun : (Project.makeBuildDir dir).runOn launcher h = (.ok (), h')) :
    h' = { h with files := h'.files } ∧ h'.files.Rooted ∧
      FileSystem.Grown (fun _ e => e = .directory) h.files h'.files := by
  rw [Project.makeBuildDir, Action.runOn_bind_host] at hrun
  split at hrun
  · next files hmade =>
    cases hrun
    obtain ⟨hr', hgrown⟩ := hr.makeDirectories hmade
    exact ⟨rfl, hr', hgrown⟩
  · cases hrun

/-! ## The lock files -/

namespace ConfigureLock

theorem runOn_openFile_ok {handle : LockHandle}
    (hrun : (openFile path).runOn launcher h = (.ok handle, h')) :
    ∃ files file, h.files.openOrCreate h.workDir path = .ok (files, file) ∧
      handle = ⟨h.nextHandle, file⟩ ∧
      h' = { h with files, nextHandle := h.nextHandle + 1 } := by
  rw [openFile, Action.runOn_bind_host] at hrun
  split at hrun
  · cases hrun
  · next files file hopen =>
    cases hrun
    exact ⟨files, file, hopen, rfl, rfl⟩

/-- Both files as they are opened one after the other. -/
structure Opened (l : ConfigureLock) (h : Host) (files : FileSystem) (pair : LockPair) : Prop where
  rooted : files.Rooted
  grown : FileSystem.Grown
    (fun l e => l ∈ [pair.tryLock.file, pair.mainLock.file] ∧ e = .file .empty false) h.files files
  tryFile : files.FileAt pair.tryLock.file
  mainFile : files.FileAt pair.mainLock.file
  locate_tryFile : files.locate h.workDir l.tryPath = .ok pair.tryLock.file
  locate_mainFile : files.locate h.workDir l.mainPath = .ok pair.mainLock.file

theorem Opened.of_openOrCreate {l : ConfigureLock} (hr : h.files.Rooted) {files files' : FileSystem}
    {pair : LockPair}
    (htry : h.files.openOrCreate h.workDir l.tryPath = .ok (files, pair.tryLock.file))
    (hmain : files.openOrCreate h.workDir l.mainPath = .ok (files', pair.mainLock.file)) :
    l.Opened h files' pair := by
  obtain ⟨hr, hgrown, hfile, hlocate⟩ := hr.openOrCreate htry
  obtain ⟨hr', hgrown', hfile', hlocate'⟩ := hr.openOrCreate hmain
  refine ⟨hr', .trans (hgrown.imp ?_) (hgrown'.imp ?_), hgrown'.kept.fileAt hfile, hfile',
    FileSystem.locate_mono hgrown'.kept hlocate, hlocate'⟩
  · rintro _ _ ⟨rfl, he⟩
    exact ⟨by simp, he⟩
  · rintro _ _ ⟨rfl, he⟩
    exact ⟨by simp, he⟩

/-- Both locks are got alone, one after the other. -/
def Takes (t : LockTable) (pair : LockPair) (t' : LockTable) : Prop :=
  ∃ mid, t.request? pair.tryLock.number pair.tryLock.file .exclusive = some mid ∧
    mid.request? pair.mainLock.number pair.mainLock.file .exclusive = some t'

theorem runOn_go_ok {l : ConfigureLock} {n : Nat} {s : Stage}
    (hrun : (go l locks n s).runOn launcher h = (.ok (), h')) :
    ∃ s' table, s.steps? locks n h.locks = some (s', table) ∧ h' = { h with locks := table } := by
  rw [go, Action.runOn_bind_host] at hrun
  split at hrun
  · next s' table hsteps =>
    cases hrun
    exact ⟨s', table, hsteps, rfl⟩
  · cases hrun

theorem request?_of_enter {handle : LockHandle} {t t' : LockTable}
    (h : Stage.enter handle t = (.chosen, t')) :
    t.request? handle.number handle.file .exclusive = some t' := by
  rw [Stage.enter] at h
  split at h
  · next granted => rw [granted, (Prod.mk.inj h).2]
  · cases h

theorem request?_of_steps? {pair : LockPair} {s : Stage} {t t' : LockTable}
    (h : Stage.chosen.steps? pair 1 t = some (s, t')) :
    t.request? pair.mainLock.number pair.mainLock.file .exclusive = some t' := by
  obtain ⟨⟨_, _⟩, hstep, h⟩ := Option.bind_eq_some_iff.1 h
  obtain ⟨_, granted, hmoved⟩ := Option.map_eq_some_iff.1 hstep
  cases hmoved
  cases h
  exact granted

/-- Settling the role opens both files.  A leader has taken both locks. -/
theorem runOn_acquire_ok {l : ConfigureLock} {role : ConfigureRole} (hr : h.files.Rooted)
    (hrun : l.acquire.runOn launcher h = (.ok role, h')) :
    ∃ pair files table,
      h' = { h with files, locks := table, nextHandle := h.nextHandle + 2 } ∧
      l.Opened h files pair ∧ pair.tryLock.number ≠ pair.mainLock.number ∧
      ∀ locks, role = .leader locks → locks = pair ∧ Takes h.locks pair table := by
  rw [acquire] at hrun
  obtain ⟨tryLock, h₁, htry, hrun⟩ := Action.runOn_bind_ok hrun
  obtain ⟨files, file, hopen, rfl, rfl⟩ := runOn_openFile_ok htry
  rw [Action.runOn_bind_host] at hrun
  dsimp only at hrun
  generalize hentered : Stage.enter ⟨h.nextHandle, file⟩ h.locks = entered at hrun
  obtain ⟨stage, table⟩ := entered
  dsimp only at hrun
  obtain ⟨_, h₂, hset, hrun⟩ := Action.runOn_bind_ok hrun
  obtain rfl : { h with files, nextHandle := h.nextHandle + 1, locks := table } = h₂ :=
    congrArg (·.2) hset
  obtain ⟨result, h₃, hmain, hrun⟩ := Action.runOn_bind_ok hrun
  rw [Action.runOn_outcome] at hmain
  cases result with
  | error f => cases (Action.runOn_bind_ok hrun).choose_spec.choose_spec.2
  | ok mainLock =>
    obtain ⟨files', file', hopen', rfl, rfl⟩ := runOn_openFile_ok
      (Prod.ext (Except.ok.inj (congrArg (·.1) hmain)) (congrArg (·.2) hmain))
    have hopened : l.Opened h files' ⟨⟨h.nextHandle, file⟩, ⟨h.nextHandle + 1, file'⟩⟩ :=
      .of_openOrCreate hr hopen hopen'
    dsimp only at hrun
    split at hrun
    · next hchosen =>
      obtain ⟨_, h₄, hgo, hrun⟩ := Action.runOn_bind_ok hrun
      obtain ⟨s', table', hsteps, rfl⟩ := runOn_go_ok hgo
      cases hrun
      refine ⟨_, files', table', rfl, hopened, Nat.ne_of_lt (Nat.lt_succ_self _), ?_⟩
      rintro _ ⟨⟩
      exact ⟨rfl, table, request?_of_enter (hchosen ▸ hentered), request?_of_steps? hsteps⟩
    · obtain ⟨_, h₄, hgo, hrun⟩ := Action.runOn_bind_ok hrun
      obtain ⟨s', table', hsteps, rfl⟩ := runOn_go_ok hgo
      cases hrun
      exact ⟨_, files', table', rfl, hopened, Nat.ne_of_lt (Nat.lt_succ_self _), nofun⟩

theorem runOn_openFile {files : FileSystem} {file : Location}
    (hopen : h.files.openOrCreate h.workDir path = .ok (files, file)) :
    (openFile path).runOn launcher h =
      (.ok ⟨h.nextHandle, file⟩, { h with files, nextHandle := h.nextHandle + 1 }) := by
  rw [openFile, Action.runOn_bind_host, hopen]
  rfl

/-- Where nothing is held, whoever can open two files as the lock files leads. -/
theorem runOn_acquire_of_free {l : ConfigureLock} {files files' : FileSystem}
    {file file' : Location}
    (htry : h.files.openOrCreate h.workDir l.tryPath = .ok (files, file))
    (hmain : files.openOrCreate h.workDir l.mainPath = .ok (files', file')) (hne : file ≠ file')
    (hfree : h.locks.held = []) :
    l.acquire.runOn launcher h =
      (.ok (.leader ⟨⟨h.nextHandle, file⟩, ⟨h.nextHandle + 1, file'⟩⟩),
        { h with
          files := files', nextHandle := h.nextHandle + 2
          locks :=
            ⟨[⟨h.nextHandle + 1, file', .exclusive⟩, ⟨h.nextHandle, file, .exclusive⟩]⟩ }) := by
  have hfirst : Stage.enter ⟨h.nextHandle, file⟩ h.locks =
      (.chosen, ⟨[⟨h.nextHandle, file, .exclusive⟩]⟩) := by
    simp [Stage.enter, LockTable.request?, LockTable.grants, hfree]
  have hsecond : LockTable.request? ⟨[⟨h.nextHandle, file, .exclusive⟩]⟩ (h.nextHandle + 1) file'
      .exclusive =
      some ⟨[⟨h.nextHandle + 1, file', .exclusive⟩, ⟨h.nextHandle, file, .exclusive⟩]⟩ := by
    simp [LockTable.request?, LockTable.grants, hne]
  rw [acquire, Action.runOn_bind_eq (runOn_openFile htry), Action.runOn_bind_host]
  dsimp only
  rw [hfirst]
  dsimp only
  have hset {g g' : Host} : (set g' : Action Unit).runOn launcher g = (.ok (), g') := rfl
  have hopened : (openFile l.mainPath).outcome.runOn launcher
      { h with
        files, nextHandle := h.nextHandle + 1
        locks := ⟨[⟨h.nextHandle, file, .exclusive⟩]⟩ } =
      (.ok (.ok ⟨h.nextHandle + 1, file'⟩),
        { h with
          files := files', nextHandle := h.nextHandle + 2
          locks := ⟨[⟨h.nextHandle, file, .exclusive⟩]⟩ }) := by
    rw [Action.runOn_outcome, runOn_openFile hmain]
  have hsteps : Stage.chosen.steps? ⟨⟨h.nextHandle, file⟩, ⟨h.nextHandle + 1, file'⟩⟩ 1
      ⟨[⟨h.nextHandle, file, .exclusive⟩]⟩ = some (.leading,
        ⟨[⟨h.nextHandle + 1, file', .exclusive⟩, ⟨h.nextHandle, file, .exclusive⟩]⟩) := by
    rw [Stage.steps?, Stage.advance?, hsecond]
    rfl
  rw [Action.runOn_bind_eq hset, Action.runOn_bind_eq hopened]
  dsimp only
  rw [if_pos rfl, go, Action.runOn_bind, Action.runOn_bind_host]
  dsimp only
  rw [hsteps]
  rfl

/-- Who has taken a lock alone holds it alone. -/
theorem Takes.onlyBy {t t' : LockTable} {pair : LockPair} (h : Takes t pair t') :
    t'.OnlyBy pair := by
  obtain ⟨mid, htry, hmain⟩ := h
  -- a lock of another handle would have stood in the way of its file's request
  have hfree {t t' : LockTable} {handle : LockHandle}
      (hgot : t.request? handle.number handle.file .exclusive = some t') {l : HeldLock}
      (hl : l ∈ t.held) (hfile : l.file = handle.file) : l.handle = handle.number := by
    by_contra hother
    have hclear := LockTable.grants_iff.1 (LockTable.grants_of_request? hgot) l hl hother hfile
    rw [LockTable.conflicts_comm] at hclear
    cases hclear
  intro l hl hfile
  rcases (LockTable.mem_of_request? hmain).1 hl with rfl | ⟨hl, -⟩
  · exact .inr rfl
  · simp only [List.mem_cons, List.not_mem_nil, or_false] at hfile
    rcases hfile with hfile | hfile
    · rcases (LockTable.mem_of_request? htry).1 hl with rfl | ⟨hl, -⟩
      · exact .inl rfl
      · exact .inl (hfree htry hl hfile)
    · exact .inr (hfree hmain hl hfile)

theorem Takes.locked {t t' : LockTable} {pair : LockPair} (h : Takes t pair t')
    (hne : pair.tryLock.number ≠ pair.mainLock.number) :
    ∀ handle ∈ [pair.tryLock, pair.mainLock], handle.locked .exclusive ∈ t'.held := by
  obtain ⟨mid, htry, hmain⟩ := h
  intro handle hhandle
  simp only [List.mem_cons, List.not_mem_nil, or_false] at hhandle
  rw [LockTable.mem_of_request? hmain]
  rcases hhandle with rfl | rfl
  · exact .inr ⟨(LockTable.mem_of_request? htry).2 (.inl rfl), hne⟩
  · exact .inl rfl

/-- The files are in one directory. -/
theorem Opened.holds {files : FileSystem} {pair : LockPair}
    (h' : (ofBuildDir dir).Opened h files pair) :
    ∃ root, files.get? root = some .directory ∧ Holds files h.workDir dir root := by
  have hname : Path.IsName tryName := isName_of_mem_names (by simp [names])
  obtain ⟨k, root, -, hleads, hroot⟩ := FileSystem.leads_of_locate_join hname h'.locate_tryFile
  refine ⟨root, hroot, ⟨k, hleads⟩, ?_⟩
  intro name hmem
  simp only [names, List.mem_cons, List.not_mem_nil, or_false] at hmem
  rcases hmem with rfl | rfl
  · exact ⟨_, h'.locate_mainFile, h'.mainFile⟩
  · exact ⟨_, h'.locate_tryFile, h'.tryFile⟩

end ConfigureLock

/-! ## Leaders -/

/-- A hook leads in a directory: it holds both locks, alone, on what the paths of the lock files
lead to. -/
structure Leading (h : Host) (dir : String) (locks : LockPair) (root : Location) : Prop where
  rooted : h.files.Rooted
  directory : h.files.get? root = some .directory
  holds : Holds h.files h.workDir dir root
  locate_tryFile : h.files.locate h.workDir (Path.join dir ConfigureLock.tryName) =
    .ok locks.tryLock.file
  locate_mainFile : h.files.locate h.workDir (Path.join dir ConfigureLock.mainName) =
    .ok locks.mainLock.file
  fileAt : ∀ file ∈ [locks.tryLock.file, locks.mainLock.file], h.files.FileAt file
  locked : ∀ handle ∈ [locks.tryLock, locks.mainLock], handle.locked .exclusive ∈ h.locks.held
  onlyBy : h.locks.OnlyBy locks

/-- Whoever has found its role has found the build directory with the lock files, and leads there if
its role is that of a leader. -/
theorem settled_of_acquire {role : ConfigureRole} (hr : h.files.Rooted)
    (hrun : (ConfigureLock.ofBuildDir dir).acquire.runOn launcher h = (.ok role, h')) :
    ∃ root, Holds h'.files h'.workDir dir root ∧
      ∀ locks, role = .leader locks → Leading h' dir locks root := by
  obtain ⟨pair, files, table, rfl, hopened, hne, hleader⟩ := ConfigureLock.runOn_acquire_ok hr hrun
  obtain ⟨root, hroot, hholds⟩ := hopened.holds
  refine ⟨root, hholds, fun locks hrole => ?_⟩
  obtain ⟨rfl, htakes⟩ := hleader locks hrole
  refine ⟨hopened.rooted, hroot, hholds, hopened.locate_tryFile, hopened.locate_mainFile, ?_,
    htakes.locked hne, htakes.onlyBy⟩
  simpa using ⟨hopened.tryFile, hopened.mainFile⟩

end CMake

end LintHooks
