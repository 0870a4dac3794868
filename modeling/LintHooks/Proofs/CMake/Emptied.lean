import LintHooks.Proofs.CMake.Cleaning
set_option autoImplicit false

/-!
# CMake: what is left of a build directory

When a build directory has been emptied, what is left in it are the lock files, and what is not in
it has not been touched.  Names are taken one after the other, and each of them either goes with all
that is below it or, if it is the name of a lock file, stays.  Whether it stays is a question of
what it leads to when it is its turn: a lock file is no directory, so what leads to a directory
under such a name goes like anything else.  A link goes as a link, and what it leads to elsewhere
stays.

The main result is `cleanBuildDir_emptied`.  `Turn` says what becomes of one name, and removing an
entry gives the name its turn (`turn_of_removeEntry`).  By induction all names are `Taken`
(`taken_of_forM`), each of them on the file system that those before it have left, and as they are
all names in the directory this is then `Emptied` (`Taken.emptied`).  If the lock files are no
directories, they are all that is left (`Emptied.get?_below`).  That there is something to say of
emptying which ends well is shown for a path without links and dots (`runOn_cleanBuildDir_there`),
by the same two steps (`runOn_removeEntry_there`, `runOn_forM_there`).
-/

namespace LintHooks.CMake

open FileSystem (Leads Within)

variable {fs fs' fs'' : FileSystem} {workDir root : Location} {dir name : String}

/-! ## Taking names from a directory -/

/-- What becomes of a name in a directory that is emptied: all that it stands for goes, or it is a
lock file and stays. -/
inductive Turn (workDir : Location) (dir : String) (root : Location) (name : String)
    (fs : FileSystem) : FileSystem → Prop where
  | removed : (name ∈ ConfigureLock.names → fs.isDirectory workDir (Path.join dir name) = true) →
    Turn workDir dir root name fs (fs.eraseTree (root ++ [name]))
  | spared : name ∈ ConfigureLock.names → fs.isDirectory workDir (Path.join dir name) = false →
    Turn workDir dir root name fs fs

/-- What becomes of a number of names. -/
structure Taken (workDir : Location) (dir : String) (root : Location) (ns : List String)
    (fs fs' : FileSystem) : Prop where
  sound : fs.Sound → fs'.Sound
  within : Within fs' fs
  /-- What is under other names is as it was. -/
  frame : ∀ l, (∀ n ∈ ns, ¬ root ++ [n] <+: l) → fs'.get? l = fs.get? l
  /-- A lock file is as it was. -/
  kept : ∀ n ∈ ConfigureLock.names, fs.isDirectory workDir (Path.join dir n) = false →
    fs'.get? (root ++ [n]) = fs.get? (root ++ [n])
  /-- What is left is a lock file. -/
  left : ∀ n ∈ ns, ∀ rest e, fs'.get? (root ++ n :: rest) = some e →
    n ∈ ConfigureLock.names ∧ fs'.isDirectory workDir (Path.join dir n) = false

namespace Taken

theorem nil (fs : FileSystem) : Taken workDir dir root [] fs fs where
  sound := id
  within := .refl fs
  frame _ _ := rfl
  kept _ _ _ := rfl
  left := nofun

/-- One name, and then the others. -/
theorem cons {ns : List String} (h : Taken workDir dir root [name] fs fs')
    (h' : Taken workDir dir root ns fs' fs'') : Taken workDir dir root (name :: ns) fs fs'' where
  sound hs := h'.sound (h.sound hs)
  within := h'.within.trans h.within
  frame l hl := by
    obtain ⟨hname, hns⟩ := List.forall_mem_cons.1 hl
    exact (h'.frame l hns).trans (h.frame l fun n hn => List.mem_singleton.1 hn ▸ hname)
  kept n hn hfile :=
    (h'.kept n hn (h.within.isDirectory_eq_false hfile)).trans (h.kept n hn hfile)
  left n hn rest e he := by
    rcases List.mem_cons.1 hn with rfl | hn
    · obtain ⟨hlock, hfile⟩ := h.left n (List.mem_singleton_self n) rest e (h'.within _ _ he)
      exact ⟨hlock, h'.within.isDirectory_eq_false hfile⟩
    · exact h'.left n hn rest e he

end Taken

theorem Turn.taken (h : Turn workDir dir root name fs fs') :
    Taken workDir dir root [name] fs fs' := by
  have hne : root ++ [name] ≠ [] := List.append_ne_nil_of_right_ne_nil _ (List.cons_ne_nil _ _)
  cases h with
  | removed hdirectory =>
    refine ⟨fun hs => hs.eraseTree hne, FileSystem.within_eraseTree fs hne, fun l hl => ?_,
      fun n hn hfile => ?_, fun n hn rest e he => ?_⟩
    · rw [FileSystem.get?_eraseTree fs hne, if_neg (hl name (List.mem_singleton_self name))]
    · rw [FileSystem.get?_eraseTree fs hne, if_neg]
      rintro ⟨rest, hrest⟩
      rw [List.append_assoc, List.singleton_append] at hrest
      obtain ⟨rfl, -⟩ := List.cons.inj (List.append_cancel_left hrest)
      rw [hdirectory hn] at hfile
      cases hfile
    · obtain rfl := List.mem_singleton.1 hn
      rw [FileSystem.get?_eraseTree fs hne, if_pos ⟨rest, by simp⟩] at he
      cases he
  | spared hlock hfile =>
    refine ⟨id, .refl fs, fun _ _ => rfl, fun _ _ _ => rfl, fun n hn _ _ _ => ?_⟩
    obtain rfl := List.mem_singleton.1 hn
    exact ⟨hlock, hfile⟩

/-! ## The names of a directory -/

variable {launcher : Launcher} {h h' : Host}

/-- Where removing what has a name comes to a good end, the name has had its turn. -/
theorem turn_of_removeEntry {base : FileSystem} {k : Nat}
    (hleads : Leads base k (FileSystem.origin h.workDir dir) (FileSystem.names dir) root)
    (hwithin : Within h.files base) (hname : Path.IsName name)
    (hrun : (Project.removeEntry (ConfigureLock.ofBuildDir dir) (Path.join dir name)).runOn
      launcher h = (.ok (), h')) :
    ∃ files, h' = { h with files } ∧ Turn h.workDir dir root name h.files files := by
  rw [Project.removeEntry, Action.runOn_bind_host] at hrun
  dsimp only at hrun
  split at hrun
  · next files hremoved =>
    obtain rfl : { h with files } = h' := congrArg Prod.snd hrun
    refine ⟨files, rfl, ?_⟩
    split at hremoved
    · next hdirectory =>
      obtain ⟨loc, hlocate, rfl⟩ := FileSystem.removeTree_eq_ok hremoved
      obtain rfl := hwithin.locate_join_last hname hleads hlocate
      exact .removed fun _ => hdirectory
    · next hfile =>
      split at hremoved
      · next hlock =>
        obtain rfl := Except.ok.inj hremoved
        exact .spared ((ConfigureLock.isLockFile_join_iff hname dir).1 hlock)
          (Bool.eq_false_iff.2 hfile)
      · next hlock =>
        obtain ⟨loc, hlocate, rfl⟩ := FileSystem.removeFile_eq_ok hremoved
        obtain rfl := hwithin.locate_join_last hname hleads hlocate
        exact .removed fun hmem =>
          absurd ((ConfigureLock.isLockFile_join_iff hname dir).2 hmem) hlock
  · cases hrun

/-- Where this holds of all names, they have been taken. -/
theorem taken_of_forM {base : FileSystem} {k : Nat} {ns : List String}
    (hleads : Leads base k (FileSystem.origin h.workDir dir) (FileSystem.names dir) root)
    (hwithin : Within h.files base) (hns : ∀ n ∈ ns, Path.IsName n)
    (hrun : ((ns.map (Path.join dir)).forM
      (Project.removeEntry (ConfigureLock.ofBuildDir dir))).runOn launcher h = (.ok (), h')) :
    ∃ files, h' = { h with files } ∧ Taken h.workDir dir root ns h.files files := by
  induction ns generalizing h with
  | nil =>
    obtain rfl : h = h' := congrArg Prod.snd hrun
    exact ⟨h.files, rfl, .nil _⟩
  | cons n ns ih =>
    obtain ⟨hname, hns⟩ := List.forall_mem_cons.1 hns
    rw [List.map_cons, List.forM_eq_forM, List.forM_cons] at hrun
    obtain ⟨_, h₁, hfirst, hrest⟩ := Action.runOn_bind_ok hrun
    rw [← List.forM_eq_forM] at hrest
    obtain ⟨files, rfl, hturn⟩ := turn_of_removeEntry hleads hwithin hname hfirst
    obtain ⟨files', rfl, htaken⟩ := ih (h := { h with files }) hleads
      (hturn.taken.within.trans hwithin) hns hrest
    exact ⟨files', rfl, hturn.taken.cons htaken⟩

/-! ## The whole directory -/

/-- A directory is empty but for lock files, and what is not in it is as it was.  The path may lead
through links; it may even lead through the directory, and nowhere then once that is empty. -/
structure Emptied (workDir : Location) (dir : String) (root : Location) (fs fs' : FileSystem) :
    Prop where
  /-- What is not in the directory is as it was, links in the directory notwithstanding. -/
  outside : ∀ l, (∀ name rest, l ≠ root ++ name :: rest) → fs'.get? l = fs.get? l
  /-- What is left in it is as it was, and it has the name of a lock file, which is no directory. -/
  left : ∀ name rest e, fs'.get? (root ++ name :: rest) = some e →
    fs.get? (root ++ name :: rest) = some e ∧ name ∈ ConfigureLock.names ∧
      fs'.isDirectory workDir (Path.join dir name) = false
  /-- A lock file, which is no directory, is left as it was if it was there. -/
  kept : ∀ name ∈ ConfigureLock.names, fs.isDirectory workDir (Path.join dir name) = false →
    fs'.get? (root ++ [name]) = fs.get? (root ++ [name])
  /-- As long as the path leads to the directory, nothing is left below its entries, and none of
  them is a directory. -/
  flat : fs'.locate workDir dir = .ok root → ∀ name rest e,
    fs'.get? (root ++ name :: rest) = some e → rest = [] ∧ e ≠ .directory
  /-- A path without links and dots leads to the directory still. -/
  leads : dir = FileSystem.render root → fs'.locate workDir dir = .ok root

/-- With all its names a directory is empty. -/
theorem Taken.emptied (hs : fs.Sound) (hroot : fs.get? root = some .directory)
    (h : Taken workDir dir root (fs.children root) fs fs') : Emptied workDir dir root fs fs' := by
  have hs' := h.sound hs
  have houtside (l : Location) (hl : ∀ name rest, l ≠ root ++ name :: rest) :
      fs'.get? l = fs.get? l := by
    refine h.frame l ?_
    rintro n - ⟨rest, rfl⟩
    exact hl n rest (by rw [List.append_assoc, List.singleton_append])
  have hroot' : fs'.get? root = some .directory := by
    rw [houtside root fun name rest heq => ?_, hroot]
    exact List.cons_ne_nil name rest (List.self_eq_append_right.1 heq)
  have hleft (name : String) (rest : Location) (e : Entry)
      (he : fs'.get? (root ++ name :: rest) = some e) :
      fs.get? (root ++ name :: rest) = some e ∧ name ∈ ConfigureLock.names ∧
        fs'.isDirectory workDir (Path.join dir name) = false := by
    have hthere : fs.get? (root ++ [name] ++ rest) = some e := by
      rw [List.append_assoc, List.singleton_append]
      exact h.within _ _ he
    refine ⟨h.within _ _ he, h.left name ?_ rest e he⟩
    exact FileSystem.mem_children.2 (hs.rooted.above hthere)
  refine ⟨houtside, hleft, h.kept, fun hdir name rest e he => ?_, ?_⟩
  · have hfile := (hleft name rest e he).2.2
    have hnot : fs'.get? (root ++ [name]) ≠ some .directory := by
      intro hdirectory
      rw [hs'.isDirectory_join hdir hdirectory] at hfile
      cases hfile
    cases rest with
    | nil => exact ⟨rfl, fun heq => hnot (heq ▸ he)⟩
    | cons x rest =>
      have hbelow : fs'.get? (root ++ [name] ++ x :: rest) = some e := by
        rwa [List.append_assoc, List.singleton_append]
      exact absurd (hs'.rooted.directory_of_below hbelow) hnot
  · rintro rfl
    exact FileSystem.locate_render hs' hroot'

/-- Where the lock files are no directories, they are all that is left. -/
theorem Emptied.get?_below (h : Emptied workDir dir root fs fs')
    (hdir : fs'.locate workDir dir = .ok root)
    (hlocks : ∀ name ∈ ConfigureLock.names, fs.isDirectory workDir (Path.join dir name) = false)
    (name : String) (rest : Location) : fs'.get? (root ++ name :: rest) =
      if name ∈ ConfigureLock.names ∧ rest = [] then fs.get? (root ++ [name]) else none := by
  split
  · next hlock =>
    obtain ⟨hname, rfl⟩ := hlock
    exact h.kept name hname (hlocks name hname)
  · next hnot =>
    refine Option.eq_none_iff_forall_ne_some.2 fun e he => hnot ?_
    exact ⟨(h.left name rest e he).2.1, (h.flat hdir name rest e he).1⟩

namespace Project

/-- A build directory that has been emptied is left with its lock files, and all that is elsewhere
is as it was. -/
theorem cleanBuildDir_emptied (hs : h.files.Sound)
    (hrun : (cleanBuildDir dir (ConfigureLock.ofBuildDir dir)).runOn launcher h = (.ok (), h')) :
    ∃ root files, h.files.locate h.workDir dir = .ok root ∧
      h.files.get? root = some .directory ∧
      h' = { h.told (cleaningNote h dir) with files } ∧
      Emptied h.workDir dir root h.files files := by
  rw [runOn_cleanBuildDir_eq] at hrun
  split at hrun
  · cases hrun
  · next ns hlist =>
    obtain ⟨root, hlocate, hroot, rfl⟩ := FileSystem.list_eq_ok_iff.1 hlist
    obtain ⟨-, -, _, -, hleads⟩ := (FileSystem.locate_directory_iff hroot).1 hlocate
    obtain ⟨files, rfl, htaken⟩ := taken_of_forM (h := h.told (cleaningNote h dir)) hleads
      (.refl _) (fun _ => hs.rooted.isName_of_mem_children) hrun
    exact ⟨root, files, hlocate, hroot, rfl, htaken.emptied hs hroot⟩

/-! ### A good end -/

/-- What has a name in a directory without links on the way to it can be removed. -/
theorem runOn_removeEntry_there (hs : h.files.Sound) (hroot : h.files.get? root = some .directory)
    (hthere : (h.files.get? (root ++ [name])).isSome = true) (launcher : Launcher)
    (lock : ConfigureLock) :
    ∃ h', (removeEntry lock (Path.join (FileSystem.render root) name)).runOn launcher h =
      (.ok (), h') := by
  have hdir : h.files.locate h.workDir (FileSystem.render root) = .ok root :=
    FileSystem.locate_render hs hroot
  have hlast : h.files.locate h.workDir (Path.join (FileSystem.render root) name)
      { follow := false } = .ok (root ++ [name]) := hs.locate_last hroot hthere
  obtain ⟨e, he⟩ := Option.isSome_iff_exists.1 hthere
  rw [removeEntry, Action.runOn_bind_host]
  cases hdirectory : h.isDirectory (Path.join (FileSystem.render root) name) with
  | true =>
    have hfile : ¬ h.files.FileAt (root ++ [name]) := by
      rintro ⟨c, x, he⟩
      obtain ⟨loc, hlocate, hloc⟩ := FileSystem.isDirectory_iff.1 hdirectory
      have hlink : ∀ target, Entry.file c x ≠ .link target := by rintro _ ⟨⟩
      have hjoin := FileSystem.locate_join_of_get? (hs.isName he) (hs.noNul he) hdir hroot he hlink
      cases hjoin.symm.trans hlocate
      cases he.symm.trans hloc
    dsimp only
    rw [if_pos rfl, FileSystem.removeTree_of_locate hlast he hfile]
    exact ⟨_, rfl⟩
  | false =>
    have hplain : e ≠ .directory := by
      rintro rfl
      rw [Host.isDirectory, hs.isDirectory_join hdir he] at hdirectory
      cases hdirectory
    dsimp only
    rw [if_neg Bool.false_ne_true, FileSystem.removeFile_of_locate hlast he hplain]
    cases lock.isLockFile (Path.join (FileSystem.render root) name) <;> exact ⟨_, rfl⟩

/-- So can all that is there. -/
theorem runOn_forM_there {ns : List String} (hs : h.files.Sound)
    (hroot : h.files.get? root = some .directory)
    (hthere : ∀ n ∈ ns, (h.files.get? (root ++ [n])).isSome = true) (hns : ns.Nodup) :
    ∃ h', ((ns.map (Path.join (FileSystem.render root))).forM
      (removeEntry (ConfigureLock.ofBuildDir (FileSystem.render root)))).runOn launcher h =
        (.ok (), h') := by
  induction ns generalizing h with
  | nil => exact ⟨h, rfl⟩
  | cons n ns ih =>
    obtain ⟨hn, hns'⟩ := List.forall_mem_cons.1 hthere
    obtain ⟨hnot, hns⟩ := List.nodup_cons.1 hns
    obtain ⟨e, he⟩ := Option.isSome_iff_exists.1 hn
    have hdir : h.files.locate h.workDir (FileSystem.render root) = .ok root :=
      FileSystem.locate_render hs hroot
    obtain ⟨-, -, _, -, hleads⟩ := (FileSystem.locate_directory_iff hroot).1 hdir
    obtain ⟨h₁, hfirst⟩ := runOn_removeEntry_there hs hroot hn launcher
      (ConfigureLock.ofBuildDir (FileSystem.render root))
    obtain ⟨files, rfl, hturn⟩ := turn_of_removeEntry hleads (.refl _) (hs.isName he) hfirst
    rw [List.map_cons, List.forM_eq_forM, List.forM_cons, Action.runOn_bind_eq hfirst,
      ← List.forM_eq_forM]
    -- what has another name is still there
    have hframe (l : Location) (hl : ¬ root ++ [n] <+: l) : files.get? l = h.files.get? l :=
      hturn.taken.frame l fun n' hn' => List.mem_singleton.1 hn' ▸ hl
    refine ih (h := { h with files }) (hturn.taken.sound hs) ?_ (fun n' hn' => ?_) hns
    · rw [hframe root, hroot]
      exact fun hbegins => absurd hbegins.length_le (by simp)
    · rw [hframe (root ++ [n']), hns' n' hn']
      intro hbegins
      have hsame : [n] = [n'] :=
        ((List.prefix_append_right_inj root).1 hbegins).eq_of_length rfl
      obtain rfl := List.singleton_inj.1 hsame
      exact hnot hn'

/-- A directory that is given by a path without links and dots is emptied. -/
theorem runOn_cleanBuildDir_there (hs : h.files.Sound)
    (hroot : h.files.get? root = some .directory) (hnames : (h.files.children root).Nodup) :
    ∃ h', (cleanBuildDir (FileSystem.render root)
      (ConfigureLock.ofBuildDir (FileSystem.render root))).runOn launcher h = (.ok (), h') := by
  have hlist : h.files.list h.workDir (FileSystem.render root) = .ok (h.files.children root) :=
    FileSystem.list_eq_ok_iff.2 ⟨root, FileSystem.locate_render hs hroot, hroot, rfl⟩
  rw [runOn_cleanBuildDir_eq, hlist]
  exact runOn_forM_there (h := h.told (cleaningNote h (FileSystem.render root))) hs hroot
    (fun _ => FileSystem.mem_children.1) hnames

/-! ### Links out of the directory -/

/-- A build directory with a lock file, a directory that is not empty, and a link to a directory
elsewhere. -/
def cluttered : Host where
  files := ⟨[(["b"], .directory), (["b", ConfigureLock.mainName], .file .empty false),
    (["b", "d"], .directory), (["b", "d", "e"], .file .empty false), (["b", "x"], .link "/o"),
    (["o"], .directory), (["o", "f"], .file .empty false)]⟩

theorem sound_cluttered : cluttered.files.Sound := .of_entries (by decide)

theorem cleanBuildDir_emptied_linked : ∃ files,
    (cleanBuildDir "/b" (ConfigureLock.ofBuildDir "/b")).runOn programless cluttered =
      (.ok (), { cluttered.told (cleaningNote cluttered "/b") with files }) ∧
    Emptied [] "/b" ["b"] cluttered.files files ∧
    files.get? ["b", ConfigureLock.mainName] = some (.file .empty false) ∧
    files.get? ["b", "d", "e"] = none ∧ files.get? ["b", "x"] = none ∧
    files.get? ["o", "f"] = some (.file .empty false) := by
  have hrender : FileSystem.render ["b"] = "/b" := by decide
  have hplace : cluttered.files.locate [] (FileSystem.render ["b"]) = .ok ["b"] :=
    FileSystem.locate_render sound_cluttered rfl
  obtain ⟨h', hrun⟩ := @runOn_cleanBuildDir_there ["b"] programless cluttered sound_cluttered rfl
    (by decide)
  rw [hrender] at hplace hrun
  obtain ⟨root, files, hlocate, -, rfl, hemptied⟩ := cleanBuildDir_emptied sound_cluttered hrun
  obtain rfl : ["b"] = root := Except.ok.inj (hplace.symm.trans hlocate)
  have hlocks : ∀ name ∈ ConfigureLock.names,
      cluttered.files.isDirectory [] (Path.join "/b" name) = false := by
    intro name hname
    simp only [ConfigureLock.names, List.mem_cons, List.not_mem_nil, or_false] at hname
    rcases hname with rfl | rfl
    · exact FileSystem.isDirectory_join_eq_false (by decide) (by decide) hplace rfl
        (.inr ⟨_, _, rfl⟩)
    · exact FileSystem.isDirectory_join_eq_false (by decide) (by decide) hplace rfl (.inl rfl)
  have hbelow := hemptied.get?_below (hemptied.leads hrender.symm) hlocks
  exact ⟨files, hrun, hemptied, hbelow ConfigureLock.mainName [], hbelow "d" ["e"], hbelow "x" [],
    hemptied.outside ["o", "f"] fun _ _ => by simp⟩

end Project

end LintHooks.CMake
