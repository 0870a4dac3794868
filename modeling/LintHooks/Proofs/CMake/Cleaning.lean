import LintHooks.CMake.Project
import LintHooks.Proofs.FileSystem.Changes
import LintHooks.Proofs.Host.Invariant
import LintHooks.Proofs.Host.Told
set_option autoImplicit false

/-!
# CMake: emptying a build directory

Before CMake runs, everything in a build directory can be removed but the lock files, which are held
while it happens.  Removing only takes entries away, so the paths that led to the lock files when
they were opened lead there or nowhere later on, and none of them is ever taken for a directory.
What goes is in the build directory under another name than theirs; a lock file that is itself
somewhere else stays, and one that a link puts under such a name goes with it.

The main statement is `runOn_cleanBuildDir`: however emptying ends, it leaves a `Cleared` directory,
and if it ends well nothing is there under another name than those of the lock files.  It is an
induction on the names (`runOn_forM_removeEntry`), whose step is a single entry.  One that is a lock
file is left out (`runOn_removeEntry_lock`), and any other goes with all that is below it
(`runOn_removeEntry`).  What carries the induction is `Holds`, that the path leads to the directory
and the lock files in it are files: these are no `Clutter` (`not_clutter`), so that removing an
entry leaves them what they are.
-/

namespace LintHooks.CMake

/-! ## The lock files in a build directory -/

namespace ConfigureLock

/-- The names of the lock files. -/
def names : List String := [mainName, tryName]

theorem isName_of_mem_names {name : String} (h : name ∈ names) : Path.IsName name := by
  have hnames : ∀ name ∈ names, Path.IsName name := by decide
  exact hnames name h

theorem paths_ofBuildDir (dir : String) : (ofBuildDir dir).paths = names.map (Path.join dir) := rfl

/-- In a directory just the names of the lock files are theirs. -/
theorem isLockFile_join_iff {name : String} (hname : Path.IsName name) (dir : String) :
    (ofBuildDir dir).isLockFile (Path.join dir name) = true ↔ name ∈ names := by
  rw [isLockFile, paths_ofBuildDir, List.any_map, List.any_eq_true]
  constructor
  · rintro ⟨lockName, hlock, hsame⟩
    rwa [← FileSystem.eq_of_same_join (isName_of_mem_names hlock) hname hsame]
  · intro hmem
    exact ⟨name, hmem, beq_self_eq_true _⟩

end ConfigureLock

/-- What is in a directory under other names than those of the lock files, and all below. -/
def Clutter (root l : Location) : Prop :=
  ∃ name rest, l = root ++ name :: rest ∧ name ∉ ConfigureLock.names

/-- A path leads to a directory, and the lock files in that directory are files. -/
structure Holds (fs : FileSystem) (workDir : Location) (dir : String) (root : Location) :
    Prop where
  leads : ∃ k, FileSystem.Leads fs k (FileSystem.origin workDir dir) (FileSystem.names dir) root
  file : ∀ name ∈ ConfigureLock.names, ∃ loc,
    fs.locate workDir (Path.join dir name) = .ok loc ∧ fs.FileAt loc

theorem Holds.entry {fs : FileSystem} {workDir root : Location} {dir name : String}
    (h : Holds fs workDir dir root) (hname : name ∈ ConfigureLock.names) :
    (fs.get? (root ++ [name])).isSome = true := by
  have hisName := ConfigureLock.isName_of_mem_names hname
  obtain ⟨loc, hlocate, -⟩ := h.file name hname
  obtain ⟨-, -, _, -, hway⟩ := FileSystem.locate_eq_ok_iff.1 hlocate
  rw [FileSystem.origin_join workDir hisName, FileSystem.steps_join hisName] at hway
  obtain ⟨_, _, mid, -, hdir, hlast⟩ := hway.split
  obtain ⟨_, hleads⟩ := h.leads
  obtain rfl := hleads.unique hdir
  rcases hlast.of_single hisName with ⟨target, he⟩ | ⟨-, e, he⟩
  · rw [he]
    rfl
  · rw [he]
    rfl

theorem not_clutter {root : Location} {name : String} (hname : name ∈ ConfigureLock.names) :
    ¬ Clutter root (root ++ [name]) := by
  rintro ⟨other, rest, heq, hother⟩
  cases List.append_cancel_left heq
  exact hother hname

/-- Some of what is in a directory is gone, and nothing else has changed. -/
def Cleared (root : Location) (fs fs' : FileSystem) : Prop :=
  ∀ l, fs'.get? l = fs.get? l ∨ fs'.get? l = none ∧ Clutter root l

variable {fs fs' fs'' base : FileSystem} {root workDir : Location} {dir name : String}

namespace Cleared

theorem refl (root : Location) (fs : FileSystem) : Cleared root fs fs := fun _ => .inl rfl

theorem trans (h : Cleared root fs fs') (h' : Cleared root fs' fs'') : Cleared root fs fs'' := by
  intro l
  rcases h' l with hsame | hgone
  · rw [hsame]
    exact h l
  · exact .inr hgone

/-- Nothing has come. -/
theorem within (h : Cleared root fs fs') : FileSystem.Within fs' fs := by
  intro l e he
  rcases h l with hsame | ⟨hnone, -⟩
  · rwa [hsame] at he
  · rw [hnone] at he
    cases he

theorem eraseTree (hname : name ∉ ConfigureLock.names) (root : Location) (fs : FileSystem) :
    Cleared root fs (fs.eraseTree (root ++ [name])) := by
  intro l
  rw [FileSystem.get?_eraseTree fs (List.append_ne_nil_of_right_ne_nil _ (List.cons_ne_nil _ _))]
  split
  · next hbegins =>
    obtain ⟨rest, rfl⟩ := hbegins
    exact .inr ⟨rfl, name, rest, by rw [List.append_assoc, List.singleton_append], hname⟩
  · exact .inl rfl

end Cleared

/-! ## One entry -/

variable (launcher : Launcher) {h : Host}

/-- A lock file is not removed: as it is no directory it is left out. -/
theorem runOn_removeEntry_lock (hbase : Holds base h.workDir dir root)
    (hwithin : FileSystem.Within h.files base) (hname : name ∈ ConfigureLock.names) :
    (Project.removeEntry (ConfigureLock.ofBuildDir dir) (Path.join dir name)).runOn launcher h =
      (.ok (), h) := by
  have hfile : h.isDirectory (Path.join dir name) = false := by
    rw [← Bool.not_eq_true, Host.isDirectory, FileSystem.isDirectory_iff]
    rintro ⟨loc, hlocate, hloc⟩
    obtain ⟨loc', hlocate', hfile⟩ := hbase.file name hname
    cases hlocate'.symm.trans (FileSystem.locate_mono hwithin hlocate)
    obtain ⟨c, x, he⟩ := hfile
    cases he.symm.trans (hwithin _ _ hloc)
  have hlock : (ConfigureLock.ofBuildDir dir).isLockFile (Path.join dir name) = true :=
    (ConfigureLock.isLockFile_join_iff (ConfigureLock.isName_of_mem_names hname) dir).2 hname
  rw [Project.removeEntry, Action.runOn_bind_host, hfile, hlock]
  rfl

/-- Anything else goes with all that is below it, or the step fails and leaves it. -/
theorem runOn_removeEntry (hbase : Holds base h.workDir dir root)
    (hwithin : FileSystem.Within h.files base) (hname : Path.IsName name)
    (hlock : name ∉ ConfigureLock.names) :
    (Project.removeEntry (ConfigureLock.ofBuildDir dir) (Path.join dir name)).runOn launcher h =
        (.ok (), { h with files := h.files.eraseTree (root ++ [name]) }) ∨
      ∃ e, (Project.removeEntry (ConfigureLock.ofBuildDir dir) (Path.join dir name)).runOn launcher
        h = (.error (.removing (Path.join dir name) e), h) := by
  have hplain : (ConfigureLock.ofBuildDir dir).isLockFile (Path.join dir name) = false := by
    rw [← Bool.not_eq_true, ConfigureLock.isLockFile_join_iff hname]
    exact hlock
  rw [Project.removeEntry, Action.runOn_bind_host, hplain]
  dsimp only
  split
  · next files hremoved =>
    obtain ⟨loc, hlocate, rfl⟩ : ∃ loc, h.files.locate h.workDir (Path.join dir name)
        { follow := false } = .ok loc ∧ files = h.files.eraseTree loc := by
      split at hremoved
      · exact FileSystem.removeTree_eq_ok hremoved
      · rw [if_neg Bool.false_ne_true] at hremoved
        exact FileSystem.removeFile_eq_ok hremoved
    obtain ⟨_, hleads⟩ := hbase.leads
    obtain rfl := hwithin.locate_join_last hname hleads hlocate
    exact .inl rfl
  · next e _ => exact .inr ⟨e, rfl⟩

/-! ## All of them -/

/-- However it ends, removing what has some names leaves a cleared directory, and where it comes to
a good end nothing has these names but the lock files. -/
theorem runOn_forM_removeEntry (hbase : Holds base h.workDir dir root)
    (hwithin : FileSystem.Within h.files base) {ns : List String}
    (hns : ∀ n ∈ ns, Path.IsName n) :
    ∃ result files, ((ns.map (Path.join dir)).forM
        (Project.removeEntry (ConfigureLock.ofBuildDir dir))).runOn launcher h =
      (result, { h with files }) ∧ Cleared root h.files files ∧
      (result = .ok () ∧ (∀ n ∈ ns, n ∉ ConfigureLock.names → ∀ rest,
          files.get? (root ++ n :: rest) = none) ∨
        ∃ path e, result = .error (.removing path e)) := by
  induction ns generalizing h with
  | nil => exact ⟨.ok (), h.files, rfl, .refl _ _, .inl ⟨rfl, nofun⟩⟩
  | cons name ns ih =>
    obtain ⟨hname, hns⟩ := List.forall_mem_cons.1 hns
    rw [List.map_cons, List.forM_eq_forM, List.forM_cons]
    by_cases hlock : name ∈ ConfigureLock.names
    · rw [Action.runOn_bind_eq (runOn_removeEntry_lock launcher hbase hwithin hlock),
        ← List.forM_eq_forM]
      obtain ⟨result, files, hrun, hcleared, hend⟩ := ih hbase hwithin hns
      refine ⟨result, files, hrun, hcleared, hend.imp_left ?_⟩
      rintro ⟨hok, hgone⟩
      exact ⟨hok, List.forall_mem_cons.2 ⟨fun hother => absurd hlock hother, hgone⟩⟩
    · have hfirst := Cleared.eraseTree hlock root h.files
      rcases runOn_removeEntry launcher hbase hwithin hname hlock with
        hremoved | ⟨e, hfailed⟩
      · rw [Action.runOn_bind_eq hremoved, ← List.forM_eq_forM]
        obtain ⟨result, files, hrun, hcleared, hend⟩ := ih
          (h := { h with files := h.files.eraseTree (root ++ [name]) }) hbase
          (hfirst.within.trans hwithin) hns
        refine ⟨result, files, hrun, hfirst.trans hcleared, hend.imp_left ?_⟩
        rintro ⟨hok, hgone⟩
        refine ⟨hok, List.forall_mem_cons.2 ⟨fun _ rest => ?_, hgone⟩⟩
        have hfirstGone :
            (h.files.eraseTree (root ++ [name])).get? (root ++ name :: rest) = none := by
          rw [FileSystem.get?_eraseTree _ (by simp), if_pos ⟨rest, by simp⟩]
        rcases hcleared (root ++ name :: rest) with hsame | ⟨hnone, -⟩
        · rw [hsame, hfirstGone]
        · exact hnone
      · rw [Action.runOn_bind, hfailed]
        exact ⟨_, h.files, rfl, .refl _ _, .inr ⟨_, e, rfl⟩⟩

/-- What is told when a build directory is emptied. -/
def cleaningNote (h : Host) (dir : String) : String :=
  Terminal.heading h.colored .blue "info" ++ ": " ++ ("Cleaning build directory " ++ dir) ++ "\n"

/-- Emptying a build directory removes what is listed in it, one after the other. -/
theorem runOn_cleanBuildDir_eq (lock : ConfigureLock) :
    (Project.cleanBuildDir dir lock).runOn launcher h =
      match h.files.list h.workDir dir with
      | .error e => (.error (.readingBuildDir dir e), h.told (cleaningNote h dir))
      | .ok ns => ((ns.map (Path.join dir)).forM (Project.removeEntry lock)).runOn launcher
          (h.told (cleaningNote h dir)) := by
  have hnote : (Terminal.info ("Cleaning build directory " ++ dir)).runOn launcher h =
      (.ok (), h.told (cleaningNote h dir)) := rfl
  have hlist : (h.told (cleaningNote h dir)).files.list (h.told (cleaningNote h dir)).workDir dir =
      h.files.list h.workDir dir := rfl
  rw [Project.cleanBuildDir, Action.runOn_bind_eq hnote, Action.runOn_bind_host, hlist]
  cases h.files.list h.workDir dir <;> rfl

/-- Emptying a build directory removes only what is in it beside the lock files, and where it comes
to a good end all of that.  It fails only as the operating system does. -/
theorem runOn_cleanBuildDir (hr : h.files.Rooted) (hbase : Holds h.files h.workDir dir root) :
    ∃ result files, (Project.cleanBuildDir dir (ConfigureLock.ofBuildDir dir)).runOn launcher h =
        (result, { h.told (cleaningNote h dir) with files }) ∧ Cleared root h.files files ∧
      (result = .ok () ∧ (∀ l, Clutter root l → files.get? l = none) ∨
        ∃ path e, result = .error (.readingBuildDir path e) ∨
          result = .error (.removing path e)) := by
  rw [runOn_cleanBuildDir_eq]
  split
  · next e _ =>
    exact ⟨_, h.files, rfl, .refl _ _, .inr ⟨dir, e, .inl rfl⟩⟩
  · next ns hlist =>
    obtain ⟨loc, hlocate, hloc, rfl⟩ := FileSystem.list_eq_ok_iff.1 hlist
    obtain ⟨-, -, _, -, hleads⟩ := (FileSystem.locate_directory_iff hloc).1 hlocate
    obtain ⟨_, hleads'⟩ := hbase.leads
    obtain rfl := hleads.unique hleads'
    obtain ⟨result, files, hrun, hcleared, hend⟩ := runOn_forM_removeEntry launcher
      (h := h.told (cleaningNote h dir)) hbase (.refl _) fun _ => hr.isName_of_mem_children
    refine ⟨result, files, hrun, hcleared, ?_⟩
    rcases hend with ⟨hok, hgone⟩ | ⟨path, e, herror⟩
    · refine .inl ⟨hok, ?_⟩
      rintro _ ⟨n, rest, rfl, hn⟩
      by_cases hmem : n ∈ h.files.children root
      · exact hgone n hmem hn rest
      -- what is below something is below nothing if that is not there
      · cases hl : files.get? (root ++ n :: rest) with
        | none => rfl
        | some e =>
          have hthere := hcleared.within _ _ hl
          rw [← List.singleton_append, ← List.append_assoc] at hthere
          exact absurd (FileSystem.mem_children.2 (hr.above hthere)) hmem
    · exact .inr ⟨path, e, .inr herror⟩

end LintHooks.CMake
