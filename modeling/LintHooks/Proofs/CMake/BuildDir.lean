import LintHooks.CMake.BuildDir
import LintHooks.Proofs.FileSystem.Names
set_option autoImplicit false

/-!
# CMake: the same build directory again

Once CMake has worked in the directory that was chosen, its cache is there and the next choice falls
on the same directory, by another branch: as the first of the user's that has a cache, or as the
first one inside the source directory.  Only the default directory can lose its place, to one with
a smaller name that has become one with a cache at the same time.  That takes a link, or a source
directory that came to be in between.

The main result is `select_again`: after a successful configure step, of which only is known that it
has left a directory with a cache (`Configured`), the choice falls on the same directory unless the
default one is `Overtaken`.  The branches of the choice are taken one by one.  What the user names
first is found again by its cache (`select_again_first`).  Where there was a cache already nothing
has changed, and the choice is a matter of the entries (`select_congr`).  Where the default
directory was made (`created_of_select`), it is looked for among the names inside the source
directory, of which the least one with a cache is taken (`discovered?_eq_some_iff`), and
`discovered_again` says what can be smaller now without having been there before.  Both ways in
which that happens are shown in `select_drifts`.
-/

namespace LintHooks.CMake

open FileSystem

variable {h : Host} {files' : FileSystem} {dir p : String} {loc : Location}

/-! ## Caches -/

theorem isName_cacheName : Path.IsName cacheName := by decide

theorem noNul_cacheName : '\x00' ∉ cacheName.toList := by decide

theorem hasCache_iff : hasCache h dir = true ↔
    ∃ loc, h.files.locate h.workDir (Path.join dir cacheName) = .ok loc ∧ h.files.FileAt loc :=
  isFile_iff

/-- The names that lead to a cache are those of the directory and its own. -/
theorem hasCache_iff_leads : hasCache h dir = true ↔ '\x00' ∉ dir.toList ∧ ∃ k, k ≤ 40 ∧
    ∃ loc, Leads h.files k (origin h.workDir dir) (names dir ++ [cacheName]) loc ∧
      h.files.FileAt loc := by
  simp only [hasCache_iff, locate_join_iff isName_cacheName noNul_cacheName]
  exact ⟨fun ⟨loc, ⟨hnul, k, hk, hleads⟩, hfile⟩ => ⟨hnul, k, hk, loc, hleads, hfile⟩,
    fun ⟨hnul, k, hk, loc, hleads, hfile⟩ => ⟨loc, ⟨hnul, k, hk, hleads⟩, hfile⟩⟩

/-- A directory with a cache in it has a cache. -/
theorem hasCache_of_file (hlocate : h.files.locate h.workDir dir = .ok loc)
    (hloc : h.files.get? loc = some .directory) (hfile : h.files.FileAt (loc ++ [cacheName])) :
    hasCache h dir = true := by
  obtain ⟨content, executable, he⟩ := hfile
  have hcache := locate_join_of_get? isName_cacheName noNul_cacheName hlocate hloc he nofun
  exact hasCache_iff.2 ⟨_, hcache, content, executable, he⟩

/-- The cache of a directory is a file in it, unless a link is there. -/
theorem file_of_hasCache (hlocate : h.files.locate h.workDir dir = .ok loc)
    (hloc : h.files.get? loc = some .directory) (hcache : hasCache h dir = true) :
    (∃ target, h.files.get? (loc ++ [cacheName]) = some (.link target)) ∨
      h.files.FileAt (loc ++ [cacheName]) := by
  obtain ⟨_, hjoin, hfile⟩ := hasCache_iff.1 hcache
  have hplace := get?_of_locate_join isName_cacheName noNul_cacheName hlocate hloc hjoin
  refine hplace.imp_right ?_
  rintro ⟨rfl, -⟩
  exact hfile

/-- A directory with a cache has it under its canonical path, too. -/
theorem hasCache_render (hs : h.files.Sound) (hcache : hasCache h dir = true)
    (hlocate : h.files.locate h.workDir dir = .ok loc) (hloc : h.files.get? loc = some .directory) :
    hasCache h (render loc) = true := by
  obtain ⟨-, k, hk, cache, hleads, hfile⟩ := hasCache_iff_leads.1 hcache
  obtain ⟨i, j, mid, hij, hmid, hlast⟩ := hleads.split
  obtain ⟨-, -, _, -, hdir⟩ := (locate_directory_iff hloc).1 hlocate
  obtain rfl := hdir.unique hmid
  exact hasCache_iff_leads.2
    ⟨noNul_render hs hloc, j, by omega, cache, (leads_render_iff hs hloc).2 hlast, hfile⟩

/-- What has a cache is a directory. -/
theorem directory_of_hasCache (hne : dir ≠ "") (hcache : hasCache h dir = true) :
    ∃ loc, h.files.locate h.workDir dir = .ok loc ∧ h.files.get? loc = some .directory := by
  obtain ⟨hnul, k, hk, _, hleads, -⟩ := hasCache_iff_leads.1 hcache
  obtain ⟨i, j, loc, hij, hdir, hlast⟩ := hleads.split
  have hloc := hlast.directory
  exact ⟨loc, (locate_directory_iff hloc).2 ⟨hne, hnul, i, by omega, hdir⟩, hloc⟩

/-- The canonical path of a directory. -/
theorem normalDir_of_locate (hlocate : h.files.locate h.workDir dir = .ok loc)
    (hloc : h.files.get? loc = some .directory) : normalDir h dir = .ok (render loc) := by
  have hcanonical : h.files.canonical? h.workDir dir = some (render loc) :=
    canonical?_eq_some_iff.2 ⟨loc, hlocate, by rw [hloc]; rfl, rfl⟩
  rw [normalDir, normalDir?, hcanonical]
  rfl

/-- The absolute path of a directory with a cache has the cache, too. -/
theorem hasCache_of_normalDir (hs : h.files.Sound) (hcache : hasCache h dir = true)
    (hnormal : normalDir h dir = .ok p) : hasCache h p = true := by
  by_cases hne : dir = ""
  · subst hne
    cases hnormal
  · obtain ⟨loc, hlocate, hloc⟩ := directory_of_hasCache hne hcache
    obtain rfl := Except.ok.inj ((normalDir_of_locate hlocate hloc).symm.trans hnormal)
    exact hasCache_render hs hcache hlocate hloc

/-! ## Directories inside the source directory -/

theorem mem_buildDirNames {source name : String} : name ∈ buildDirNames h source ↔
    ∃ loc, h.files.locate h.workDir source = .ok loc ∧ h.files.get? loc = some .directory ∧
      (h.files.get? (loc ++ [name])).isSome = true ∧ h.isDirectory (Path.join source name) = true ∧
      hasCache h (Path.join source name) = true := by
  rw [buildDirNames]
  cases hlist : h.files.list h.workDir source with
  | error e =>
    refine iff_of_false List.not_mem_nil ?_
    rintro ⟨loc, hlocate, hloc, -⟩
    cases hlist.symm.trans (list_eq_ok_iff.2 ⟨loc, hlocate, hloc, rfl⟩)
  | ok ns =>
    obtain ⟨loc, hlocate, hloc, rfl⟩ := list_eq_ok_iff.1 hlist
    simp [List.mem_mergeSort, List.mem_filter, mem_children, hlocate, hloc]

/-- A directory inside the source directory is found by its cache. -/
theorem mem_buildDirNames_of_locate {source name : String} {dir : Location}
    (hname : Path.IsName name) (hnul : '\x00' ∉ name.toList)
    (hsource : h.files.locate h.workDir source = .ok dir)
    (hdir : h.files.get? dir = some .directory)
    (hlocate : h.files.locate h.workDir (Path.join source name) = .ok loc)
    (hloc : h.files.get? loc = some .directory) (hfile : h.files.FileAt (loc ++ [cacheName])) :
    name ∈ buildDirNames h source := by
  have hentry : (h.files.get? (dir ++ [name])).isSome = true := by
    have hplace := get?_of_locate_join hname hnul hsource hdir hlocate
    rcases hplace with ⟨_, he⟩ | ⟨-, _, he⟩ <;> rw [he] <;> rfl
  exact mem_buildDirNames.2 ⟨dir, hsource, hdir, hentry,
    isDirectory_iff.2 ⟨loc, hlocate, hloc⟩, hasCache_of_file hlocate hloc hfile⟩

/-- What is found inside the source directory is a directory there with a file for its cache, unless
one of them is a link. -/
theorem file_of_mem_buildDirNames {source name : String} (hs : h.files.Sound)
    (hmem : name ∈ buildDirNames h source) : Path.IsName name ∧ '\x00' ∉ name.toList ∧
      ∃ dir, h.files.locate h.workDir source = .ok dir ∧ h.files.get? dir = some .directory ∧
        ((∃ target, h.files.get? (dir ++ [name]) = some (.link target)) ∨
          h.files.locate h.workDir (Path.join source name) = .ok (dir ++ [name]) ∧
            ((∃ target, h.files.get? (dir ++ [name] ++ [cacheName]) = some (.link target)) ∨
              h.files.FileAt (dir ++ [name] ++ [cacheName]))) := by
  obtain ⟨dir, hsource, hdir, hentry, hisDirectory, hcache⟩ := mem_buildDirNames.1 hmem
  obtain ⟨e, he⟩ := Option.isSome_iff_exists.1 hentry
  refine ⟨hs.isName he, hs.noNul he, dir, hsource, hdir, ?_⟩
  obtain ⟨loc, hlocate, hloc⟩ := isDirectory_iff.1 hisDirectory
  have hplace := get?_of_locate_join (hs.isName he) (hs.noNul he) hsource hdir hlocate
  refine hplace.imp_right ?_
  rintro ⟨rfl, -⟩
  exact ⟨hlocate, file_of_hasCache hlocate hloc hcache⟩

theorem pairwise_buildDirNames (h : Host) (source : String) :
    (buildDirNames h source).Pairwise (· ≤ ·) := by
  rw [buildDirNames]
  split
  · exact .nil
  · have hsorted := @List.pairwise_mergeSort String (fun a b => decide (a ≤ b))
      (by simpa using fun _ _ _ => String.le_trans) (by simpa using String.le_total)
    exact (hsorted _).imp of_decide_eq_true

/-- The first name in order is the least. -/
theorem head?_eq_some_iff_of_pairwise {names : List String} (hnames : names.Pairwise (· ≤ ·))
    {name : String} : names.head? = some name ↔ name ∈ names ∧ ∀ n ∈ names, name ≤ n := by
  cases names with
  | nil => simp
  | cons first rest =>
    have hleast : ∀ n ∈ first :: rest, first ≤ n :=
      List.forall_mem_cons.2 ⟨String.le_refl first, (List.pairwise_cons.1 hnames).1⟩
    constructor
    · rintro ⟨⟩
      exact ⟨List.mem_cons_self, hleast⟩
    · rintro ⟨hmem, hmin⟩
      rw [String.le_antisymm (hmin first List.mem_cons_self) (hleast name hmem)]
      rfl

namespace BuildDirChoice

variable {o : Options}

theorem discovered?_eq_some_iff : discovered? h o = some dir ↔ o.discovery = true ∧
    ∃ name ∈ buildDirNames h o.sourceDir, (∀ n ∈ buildDirNames h o.sourceDir, name ≤ n) ∧
      Path.join o.sourceDir name = dir := by
  rw [discovered?]
  cases o.discovery with
  | false => simp
  | true =>
    simp only [if_true, Option.map_eq_some_iff, true_and, and_assoc,
      head?_eq_some_iff_of_pairwise (pairwise_buildDirNames h o.sourceDir)]

theorem hasCache_of_discovered? (hdir : discovered? h o = some dir) : hasCache h dir = true := by
  obtain ⟨-, name, hname, -, rfl⟩ := discovered?_eq_some_iff.1 hdir
  obtain ⟨_, -, -, -, -, hcache⟩ := mem_buildDirNames.1 hname
  exact hcache

/-- What is found among names is some directory. -/
theorem discovered?_isSome (ho : o.discovery = true) {name : String}
    (hname : name ∈ buildDirNames h o.sourceDir) : discovered? h o ≠ none := by
  rw [discovered?, if_pos ho, Ne, Option.map_eq_none_iff, List.head?_eq_none_iff]
  exact List.ne_nil_of_mem hname

/-! ## Looking at the same files -/

section Congr

variable (hsame : ∀ l, files'.get? l = h.files.get? l)
include hsame

theorem hasCache_congr (dir : String) :
    hasCache { h with files := files' } dir = hasCache h dir := by
  rw [Bool.eq_iff_iff, hasCache_iff, hasCache_iff]
  simp only [FileAt, locate_congr hsame, hsame]

theorem normalDir_congr (dir : String) :
    normalDir { h with files := files' } dir = normalDir h dir := by
  have hcanonical : files'.canonical? h.workDir dir = h.files.canonical? h.workDir dir := by
    refine Option.ext fun a => ?_
    simp only [canonical?_eq_some_iff, locate_congr hsame, hsame]
  rw [normalDir, normalDir, normalDir?, normalDir?, hcanonical]
  rfl

theorem discovered?_congr (o : Options) :
    discovered? { h with files := files' } o = discovered? h o := by
  have hnames : ∀ n, n ∈ buildDirNames { h with files := files' } o.sourceDir ↔
      n ∈ buildDirNames h o.sourceDir := by
    intro n
    simp only [mem_buildDirNames, Host.isDirectory, isDirectory_iff, hasCache_congr hsame,
      locate_congr hsame, hsame]
  refine Option.ext fun dir => ?_
  simp only [discovered?_eq_some_iff, hnames]

/-- The choice is a matter of the entries. -/
theorem select_congr (o : Options) : select { h with files := files' } o = select h o := by
  have hfind : hasCache { h with files := files' } = hasCache h := funext (hasCache_congr hsame)
  rw [select, select, hfind, discovered?_congr hsame]
  simp only [normalDir_congr hsame]
  rfl

end Congr

/-! ## Choosing again -/

/-- What a successful configure step leaves: the directory is there with a cache in it.  Where a
cache is already nothing changes. -/
structure Configured (h : Host) (dir : String) (files' : FileSystem) : Prop where
  sound : files'.Sound
  workDir : files'.get? h.workDir = some .directory
  kept : hasCache h dir = true → ∀ l, files'.get? l = h.files.get? l
  made : hasCache h dir = false → ∃ loc, files'.locate h.workDir dir = .ok loc ∧
    files'.get? loc = some .directory ∧ Wrote h.files files' (loc ++ [cacheName])

/-- Two paths lead to one place. -/
def SamePlace (fs : FileSystem) (workDir : Location) (p q : String) : Prop :=
  p = q ∨ ∃ loc, fs.locate workDir p = .ok loc ∧ fs.locate workDir q = .ok loc

/-- A directory inside the source directory comes before the default one.  It has become one with
a cache as it is a link, or its cache is, or as the source directory was not to be found. -/
def Overtaken (h : Host) (files' : FileSystem) (source dir : String) : Prop :=
  ∃ loc name, files'.locate h.workDir source = .ok loc ∧ name < defaultBuildDir ∧
    dir = Path.join source name ∧
    ((∃ target, h.files.get? (loc ++ [name]) = some (.link target)) ∨
      (∃ target, h.files.get? (loc ++ [name] ++ [cacheName]) = some (.link target)) ∨
      h.isDirectory source = false ∧ h.files.get? loc = some .directory)

/-- Where the user names no directory the default one is made if none is found. -/
theorem select_of_nil (ho : o.candidates = []) :
    select h o = match discovered? h o with
      | some dir => .ok (.discovered dir)
      | none =>
        if o.noConfigure then .ok .nothing
        else .ok (.created (Path.join o.sourceDir defaultBuildDir)) := by
  rw [select, toCreate, ho, List.find?_nil]
  rfl

/-- The first of the user's directories is found by its cache, and under its canonical path. -/
theorem select_again_first {first a : String} {rest : List String} (hs : files'.Sound)
    (hwork : files'.get? h.workDir = some .directory) (ho : o.candidates = first :: rest)
    (ha : h.absolute? first = some a) (hlocate : files'.locate h.workDir a = .ok loc)
    (hloc : files'.get? loc = some .directory) (hfile : files'.FileAt (loc ++ [cacheName])) :
    select { h with files := files' } o = .ok (.located (render loc)) := by
  have hfirst := locate_of_absolute? hs hwork ha hloc hlocate
  have hcache : hasCache { h with files := files' } first = true :=
    hasCache_of_file hfirst hloc hfile
  have hnormal : normalDir { h with files := files' } first = .ok (render loc) :=
    normalDir_of_locate hfirst hloc
  rw [select, ho, List.find?_cons_of_pos hcache]
  dsimp only
  rw [hnormal]
  rfl

theorem isName_defaultBuildDir : Path.IsName defaultBuildDir := by decide

theorem noNul_defaultBuildDir : '\x00' ∉ defaultBuildDir.toList := by decide

/-- What is found inside the source directory once the default directory has a cache.  What has
a smaller name and is found now would have been found before, if it can be seen without links. -/
theorem discovered_again {d : String} (hs : h.files.Sound) (hs' : files'.Sound)
    (hnone : discovered? h o = none)
    (hlocate : files'.locate h.workDir (Path.join o.sourceDir defaultBuildDir) = .ok loc)
    (hloc : files'.get? loc = some .directory) (hw : Wrote h.files files' (loc ++ [cacheName]))
    (hdiscovered : discovered? { h with files := files' } o = some d) :
    SamePlace files' h.workDir (Path.join o.sourceDir defaultBuildDir) d ∨
      Overtaken h files' o.sourceDir d := by
  obtain ⟨hdiscovery, name, hmem, hleast, rfl⟩ := discovered?_eq_some_iff.1 hdiscovered
  obtain ⟨hname, hnul, source, hsource, hsourceDir, hfound⟩ := file_of_mem_buildDirNames hs' hmem
  have hdefault : defaultBuildDir ∈ buildDirNames { h with files := files' } o.sourceDir :=
    mem_buildDirNames_of_locate isName_defaultBuildDir noNul_defaultBuildDir hsource hsourceDir
      hlocate hloc hw.written
  by_cases hsame : name = defaultBuildDir
  · exact .inl (.inl (by rw [hsame]))
  have hlt : name < defaultBuildDir := by
    refine String.not_le.1 fun hle => hsame (String.le_antisymm (hleast _ hdefault) hle)
  rcases hfound with ⟨target, hlink⟩ | ⟨hjoin, ⟨target, hlink⟩ | hfile⟩
  · exact .inr ⟨source, name, hsource, hlt, rfl, .inl ⟨target, hw.link hlink⟩⟩
  · exact .inr ⟨source, name, hsource, hlt, rfl, .inr (.inl ⟨target, hw.link hlink⟩)⟩
  by_cases hmade : source ++ [name] ++ [cacheName] = loc ++ [cacheName]
  · rw [List.append_cancel_right hmade] at hjoin
    exact .inl (.inr ⟨loc, hlocate, hjoin⟩)
  -- the cache was there before, and so were the directories above it
  have hbefore : h.files.FileAt (source ++ [name] ++ [cacheName]) := hw.fileAt hmade hfile
  obtain ⟨_, _, he⟩ := hbefore
  have hdirBefore : h.files.get? (source ++ [name]) = some .directory := hs.parent he
  have hsourceBefore : h.files.get? source = some .directory := hs.parent hdirBefore
  refine .inr ⟨source, name, hsource, hlt, rfl, .inr (.inr ⟨?_, hsourceBefore⟩)⟩
  rw [← Bool.not_eq_true]
  intro hisDirectory
  obtain ⟨source₀, hlocate₀, hsource₀⟩ := isDirectory_iff.1 hisDirectory
  obtain rfl := hw.locate_eq hlocate₀ hsource₀ hsource hsourceDir
  exact discovered?_isSome hdiscovery (mem_buildDirNames_of_locate hname hnul hlocate₀ hsource₀
    (locate_join_of_get? hname hnul hlocate₀ hsource₀ hdirBefore nofun) hdirBefore
    ⟨_, _, he⟩) hnone

/-- A directory without a cache is chosen to be made only, and only where there is no other. -/
theorem created_of_select {c : BuildDirChoice} (hs : h.files.Sound) (hc : select h o = .ok c)
    (hdir : c.dir? = some dir) (hcache : hasCache h dir = false) :
    toCreate h o = .ok dir ∧ discovered? h o = none := by
  have hno : hasCache h dir ≠ true := by
    rw [hcache]
    exact Bool.false_ne_true
  rw [select] at hc
  split at hc
  · next first hfirst =>
    cases hnormal : normalDir h first with
    | error _ =>
      rw [hnormal] at hc
      cases hc
    | ok path =>
      rw [hnormal] at hc
      obtain rfl := Except.ok.inj hc
      obtain rfl := Option.some.inj hdir
      exact absurd (hasCache_of_normalDir hs (List.find?_some hfirst) hnormal) hno
  · split at hc
    · next found hfound =>
      obtain rfl := Except.ok.inj hc
      obtain rfl := Option.some.inj hdir
      exact absurd (hasCache_of_discovered? hfound) hno
    · next hfound =>
      split at hc
      · obtain rfl := Except.ok.inj hc
        cases hdir
      · cases hcreate : toCreate h o with
        | error _ =>
          rw [hcreate] at hc
          cases hc
        | ok path =>
          rw [hcreate] at hc
          obtain rfl := Except.ok.inj hc
          obtain rfl := Option.some.inj hdir
          exact ⟨rfl, hfound⟩

/-- The choice falls on the same directory again after a successful configure step, unless the
default directory is overtaken. -/
theorem select_again {c : BuildDirChoice} {d : String} (hs : h.files.Sound)
    (ho : o.noConfigure = false) (hc : select h o = .ok c) (hd : c.dir? = some d)
    (hconfigured : Configured h d files') :
    ∃ c' d', select { h with files := files' } o = .ok c' ∧ c'.dir? = some d' ∧
      (SamePlace files' h.workDir d d' ∨
        o.candidates = [] ∧ o.discovery = true ∧ Overtaken h files' o.sourceDir d') := by
  cases hcache : hasCache h d with
  | true =>
    exact ⟨c, d, (select_congr (hconfigured.kept hcache) o).trans hc, hd, .inl (.inl rfl)⟩
  | false =>
    obtain ⟨hcreate, hnone⟩ := created_of_select hs hc hd hcache
    obtain ⟨loc, hlocate, hloc, hw⟩ := hconfigured.made hcache
    cases hcandidates : o.candidates with
    | cons first rest =>
      have ha : h.absolute? first = some d := by
        rw [toCreate, hcandidates] at hcreate
        dsimp only at hcreate
        split at hcreate
        · next a ha => rw [ha, Except.ok.inj hcreate]
        · cases hcreate
      have hagain := select_again_first hconfigured.sound hconfigured.workDir hcandidates ha hlocate
        hloc hw.written
      have hrender := @locate_render _ h.workDir _ hconfigured.sound hloc
      exact ⟨_, _, hagain, rfl, .inl (.inr ⟨loc, hlocate, hrender⟩)⟩
    | nil =>
      obtain rfl : Path.join o.sourceDir defaultBuildDir = d := by
        rw [toCreate, hcandidates] at hcreate
        exact Except.ok.inj hcreate
      cases hdiscovered : discovered? { h with files := files' } o with
      | some d' =>
        have hagain := discovered_again hs hconfigured.sound hnone hlocate hloc hw hdiscovered
        have hdiscovery := (discovered?_eq_some_iff.1 hdiscovered).1
        exact ⟨.discovered d', d', by rw [select_of_nil hcandidates, hdiscovered], rfl,
          hagain.imp_right fun hover => ⟨rfl, hdiscovery, hover⟩⟩
      | none =>
        exact ⟨.created _, _, by rw [select_of_nil hcandidates, hdiscovered, ho]; rfl, rfl,
          .inl (.inl rfl)⟩

/-! ### The default directory overtaken -/

/-- The choice falls on another directory after a successful configure step. -/
structure Drifts (h : Host) (files' : FileSystem) (o : Options) (d d' : String) : Prop where
  sound : h.files.Sound
  noConfigure : o.noConfigure = false
  first : select h o = .ok (.created d)
  configured : Configured h d files'
  second : select { h with files := files' } o = .ok (.discovered d')
  elsewhere : ¬ SamePlace files' h.workDir d d'

theorem Drifts.of_discovered {d' : String} {loc' : Location} (hs : h.files.Sound)
    (hs' : files'.Sound) (hwork : files'.get? h.workDir = some .directory)
    (hcandidates : o.candidates = [])
    (ho : o.noConfigure = false)
    (hcache : hasCache h (Path.join o.sourceDir defaultBuildDir) = false)
    (hlocate : files'.locate h.workDir (Path.join o.sourceDir defaultBuildDir) = .ok loc)
    (hloc : files'.get? loc = some .directory) (hw : Wrote h.files files' (loc ++ [cacheName]))
    (hfirst : discovered? h o = none) (hsecond : discovered? { h with files := files' } o = some d')
    (hlocate' : files'.locate h.workDir d' = .ok loc') (hne : loc' ≠ loc) :
    Drifts h files' o (Path.join o.sourceDir defaultBuildDir) d' where
  sound := hs
  noConfigure := ho
  first := by
    rw [select_of_nil hcandidates, hfirst, ho]
    rfl
  configured := ⟨hs', hwork, fun htrue => absurd (htrue.symm.trans hcache) (by decide),
    fun _ => ⟨loc, hlocate, hloc, hw⟩⟩
  second := by rw [select_of_nil hcandidates, hsecond]
  elsewhere := by
    rintro (hsame | ⟨_, hd, hd'⟩)
    · rw [← hsame] at hlocate'
      exact hne (Except.ok.inj (hlocate'.symm.trans hlocate))
    · exact hne (Except.ok.inj ((hlocate'.symm.trans hd').trans (hd.symm.trans hlocate)))

/-- The least name in the source directory is found if it is that of a directory with a cache. -/
theorem discovered?_of_least {name : String} (ho : o.discovery = true)
    (hmem : name ∈ buildDirNames h o.sourceDir)
    (hsource : h.files.locate h.workDir o.sourceDir = .ok loc)
    (hleast : ∀ n ∈ h.files.children loc, name ≤ n) :
    discovered? h o = some (Path.join o.sourceDir name) := by
  refine discovered?_eq_some_iff.2 ⟨ho, name, hmem, fun n hn => ?_, rfl⟩
  obtain ⟨loc', hlocate, -, hchild, -⟩ := mem_buildDirNames.1 hn
  obtain rfl := Except.ok.inj (hsource.symm.trans hlocate)
  exact hleast n (mem_children.2 hchild)

/-- The cache of a directory is a link to the one of the default directory, which is not there. -/
def linked : FileSystem :=
  ⟨[(["s"], .directory), (["s", ".a"], .directory),
    (["s", ".a", "CMakeCache.txt"], .link "../.cmake_build/CMakeCache.txt")]⟩

/-- The same file system once CMake has worked in the default directory. -/
def linkedMade : FileSystem :=
  ⟨(["s", ".cmake_build", "CMakeCache.txt"], .file .empty false) ::
    (["s", ".cmake_build"], .directory) :: linked.entries⟩

theorem wrote_linked : Wrote linked linkedMade ["s", ".cmake_build", "CMakeCache.txt"] := by
  refine ⟨⟨_, _, rfl⟩, fun l hl => ?_⟩
  by_cases hdir : l = ["s", ".cmake_build"]
  · subst hdir
    exact .inr ⟨rfl, rfl⟩
  · rw [FileSystem.get?, FileSystem.get?, linkedMade, List.lookup_cons, List.lookup_cons,
      beq_false_of_ne hl, beq_false_of_ne hdir]
    exact .inl rfl

theorem sound_linkedMade : linkedMade.Sound := .of_entries (by decide)

theorem sound_linked : linked.Sound := .of_entries (by decide)

theorem steps_linked : steps "../.cmake_build/CMakeCache.txt" =
    ["..", ".cmake_build", "CMakeCache.txt"] := by
  decide

/-- The default directory is not there, so no way leads through it. -/
theorem not_leads_linked {k : Nat} :
    ¬ Leads linked k ["s"] [".cmake_build", "CMakeCache.txt"] loc := by
  intro hleads
  obtain ⟨_, _, _, -, hfirst, -⟩ := @Leads.split _ _ _ _ [".cmake_build"] _ hleads
  have hnone : linked.get? (["s"] ++ [".cmake_build"]) = none := rfl
  rcases hfirst.of_single (by decide) with ⟨_, he⟩ | ⟨-, _, he⟩ <;> cases hnone.symm.trans he

theorem hasCache_default_linked : hasCache { files := linked } "/s/.cmake_build" = false := by
  rw [← Bool.not_eq_true, hasCache_iff_leads]
  rintro ⟨-, _, -, _, hleads, -⟩
  have hnames : names "/s/.cmake_build" ++ [cacheName] =
      ["s", ".cmake_build", "CMakeCache.txt"] := by
    decide
  rw [hnames, origin, if_pos (by decide), Leads.enter_iff rfl (by decide)] at hleads
  exact not_leads_linked hleads

theorem hasCache_linked : hasCache { files := linked } "/s/.a" = false := by
  rw [← Bool.not_eq_true, hasCache_iff_leads]
  rintro ⟨-, _, -, _, hleads, -⟩
  have hnames : names "/s/.a" ++ [cacheName] = ["s", ".a", "CMakeCache.txt"] := by decide
  rw [hnames, origin, if_pos (by decide), Leads.enter_iff rfl (by decide),
    Leads.enter_iff rfl (by decide)] at hleads
  obtain ⟨_, -, -, hrest⟩ := (Leads.link_iff rfl (by decide) (by decide) rfl).1 hleads
  rw [steps_linked, List.append_nil, if_neg (by decide), Leads.up_iff] at hrest
  exact not_leads_linked hrest.2

theorem hasCache_linkedMade : hasCache { files := linkedMade } "/s/.a" = true := by
  have hnames : names "/s/.a" ++ [cacheName] = ["s", ".a", "CMakeCache.txt"] := by decide
  have hcache : Leads linkedMade 0 ["s"] [".cmake_build", "CMakeCache.txt"]
      ["s", ".cmake_build", "CMakeCache.txt"] :=
    .step rfl (by decide) (by decide) rfl nofun (.step rfl (by decide) (by decide) rfl nofun .nil)
  have hlink : Leads linkedMade 1 ["s", ".a"] ["CMakeCache.txt"]
      ["s", ".cmake_build", "CMakeCache.txt"] := by
    refine .link rfl (by decide) (by decide) rfl (by decide) ?_
    rw [steps_linked, List.append_nil, if_neg (by decide)]
    exact .up rfl hcache
  refine hasCache_iff_leads.2 ⟨by decide, 1, by decide, ["s", ".cmake_build", "CMakeCache.txt"], ?_,
    _, _, rfl⟩
  rw [hnames, origin, if_pos (by decide), Leads.enter_iff rfl (by decide),
    Leads.enter_iff rfl (by decide)]
  exact hlink

theorem discovered?_linked (candidates : List String) :
    discovered? { files := linked } ⟨"/s", candidates, true, false⟩ = none := by
  refine Option.eq_none_iff_forall_ne_some.2 fun dir hdir => ?_
  have hsource := @locate_render _ [] ["s"] sound_linked rfl
  obtain ⟨-, name, hname, -, rfl⟩ := discovered?_eq_some_iff.1 hdir
  obtain ⟨_, hlocate, -, hchild, -, hcache⟩ := mem_buildDirNames.1 hname
  obtain rfl := Except.ok.inj (hsource.symm.trans hlocate)
  have hchildren : linked.children ["s"] = [".a"] := by decide
  have hmem := mem_children.2 hchild
  rw [hchildren, List.mem_singleton] at hmem
  have hpath : Path.join "/s" ".a" = "/s/.a" := by decide
  rw [hmem, hpath, hasCache_linked] at hcache
  cases hcache

theorem drifts_linked :
    Drifts { files := linked } linkedMade ⟨"/s", [], true, false⟩ "/s/.cmake_build" "/s/.a" := by
  have hsource := @locate_render _ [] ["s"] sound_linkedMade rfl
  have hdefault : linkedMade.locate [] "/s/.cmake_build" = .ok ["s", ".cmake_build"] :=
    @locate_render _ [] ["s", ".cmake_build"] sound_linkedMade rfl
  have hother := @locate_render _ [] ["s", ".a"] sound_linkedMade rfl
  have hpath : Path.join "/s" defaultBuildDir = "/s/.cmake_build" := by decide
  have hpath' : Path.join "/s" ".a" = "/s/.a" := by decide
  have hmem : ".a" ∈ buildDirNames { files := linkedMade } "/s" := by
    refine mem_buildDirNames.2 ⟨["s"], hsource, rfl, rfl, ?_⟩
    rw [hpath']
    exact ⟨isDirectory_iff.2 ⟨_, hother, rfl⟩, hasCache_linkedMade⟩
  have hsecond : discovered? { files := linkedMade } ⟨"/s", [], true, false⟩ = _ :=
    discovered?_of_least rfl hmem hsource (by decide)
  rw [hpath'] at hsecond
  rw [← hpath] at hdefault ⊢
  exact .of_discovered sound_linked sound_linkedMade rfl rfl rfl
    (by rw [hpath]; exact hasCache_default_linked) hdefault rfl wrote_linked (discovered?_linked [])
    hsecond hother (by decide)

/-- The source directory is there under another path than the one that is looked at, whose first
name is missing. -/
def detour : FileSystem :=
  ⟨[(["s"], .directory), (["s", ".a"], .directory),
    (["s", ".a", "CMakeCache.txt"], .file .empty false)]⟩

/-- The same file system once CMake has worked in the default directory. -/
def detourMade : FileSystem :=
  ⟨(["s", ".cmake_build", "CMakeCache.txt"], .file .empty false) ::
    (["s", ".cmake_build"], .directory) :: (["x"], .directory) :: detour.entries⟩

theorem wrote_detour : Wrote detour detourMade ["s", ".cmake_build", "CMakeCache.txt"] := by
  refine ⟨⟨_, _, rfl⟩, fun l hl => ?_⟩
  by_cases hdir : l = ["s", ".cmake_build"]
  · subst hdir
    exact .inr ⟨rfl, rfl⟩
  by_cases hx : l = ["x"]
  · subst hx
    exact .inr ⟨rfl, rfl⟩
  · rw [FileSystem.get?, FileSystem.get?, detourMade, List.lookup_cons, List.lookup_cons,
      List.lookup_cons, beq_false_of_ne hl, beq_false_of_ne hdir, beq_false_of_ne hx]
    exact .inl rfl

theorem sound_detour : detour.Sound := .of_entries (by decide)

theorem sound_detourMade : detourMade.Sound := .of_entries (by decide)

theorem not_leads_detour {k : Nat} {ys : List String} : ¬ Leads detour k [] ("x" :: ys) loc := by
  intro hleads
  obtain ⟨_, _, _, -, hfirst, -⟩ := @Leads.split _ _ _ _ ["x"] _ hleads
  have hnone : detour.get? ([] ++ ["x"]) = none := rfl
  rcases hfirst.of_single (by decide) with ⟨_, he⟩ | ⟨-, _, he⟩ <;> cases hnone.symm.trans he

theorem discovered?_detour :
    discovered? { files := detour } ⟨"/x/../s", [], true, false⟩ = none := by
  refine Option.eq_none_iff_forall_ne_some.2 fun dir hdir => ?_
  obtain ⟨-, name, hname, -, rfl⟩ := discovered?_eq_some_iff.1 hdir
  obtain ⟨_, hlocate, hloc, -⟩ := mem_buildDirNames.1 hname
  obtain ⟨-, -, _, -, hleads⟩ := (locate_directory_iff hloc).1 hlocate
  have hnames : names "/x/../s" = ["x", "..", "s"] := by decide
  rw [hnames, origin, if_pos (by decide)] at hleads
  exact not_leads_detour hleads

theorem hasCache_detour : hasCache { files := detour } "/x/../s/.cmake_build" = false := by
  rw [← Bool.not_eq_true, hasCache_iff_leads]
  rintro ⟨-, _, -, _, hleads, -⟩
  have hnames : names "/x/../s/.cmake_build" ++ [cacheName] =
      ["x", "..", "s", ".cmake_build", "CMakeCache.txt"] := by
    decide
  rw [hnames, origin, if_pos (by decide)] at hleads
  exact not_leads_detour hleads

theorem locate_detourMade : detourMade.locate [] "/x/../s" = .ok ["s"] := by
  have hnames : names "/x/../s" = ["x", "..", "s"] := by decide
  refine (locate_directory_iff rfl).2 ⟨by decide, by decide, 0, by decide, ?_⟩
  rw [hnames, origin, if_pos (by decide), Leads.enter_iff rfl (by decide), Leads.up_iff]
  exact ⟨rfl, (Leads.enter_iff rfl (by decide)).2 .nil⟩

/-- What is in the source directory is found by the detour, too. -/
theorem locate_join_detourMade {name : String} (hname : Path.IsName name)
    (hnul : '\x00' ∉ name.toList) (hdir : detourMade.get? ["s", name] = some .directory) :
    detourMade.locate [] (Path.join "/x/../s" name) = .ok ["s", name] :=
  locate_join_of_get? hname hnul locate_detourMade rfl hdir nofun

theorem drifts_detour :
    Drifts { files := detour } detourMade ⟨"/x/../s", [], true, false⟩ "/x/../s/.cmake_build"
      "/x/../s/.a" := by
  have hsource := locate_detourMade
  have hdefault := locate_join_detourMade isName_defaultBuildDir noNul_defaultBuildDir rfl
  have hother := locate_join_detourMade (by decide : Path.IsName ".a") (by decide) rfl
  have hmem : ".a" ∈ buildDirNames { files := detourMade } "/x/../s" :=
    mem_buildDirNames_of_locate (by decide) (by decide) hsource rfl hother rfl ⟨_, _, rfl⟩
  have hsecond : discovered? { files := detourMade } ⟨"/x/../s", [], true, false⟩ = _ :=
    discovered?_of_least rfl hmem hsource (by decide)
  have hpath : Path.join "/x/../s" defaultBuildDir = "/x/../s/.cmake_build" := by decide
  have hpath' : Path.join "/x/../s" ".a" = "/x/../s/.a" := by decide
  rw [← hpath, ← hpath']
  exact .of_discovered sound_detour sound_detourMade rfl rfl rfl
    (by rw [hpath]; exact hasCache_detour) hdefault rfl wrote_detour discovered?_detour hsecond
    hother (by decide)

/-- A directory takes the place of the default one if its cache is a link to that one's, and if the
source directory is found only once the default directory has been made. -/
theorem select_drifts :
    Drifts { files := linked } linkedMade ⟨"/s", [], true, false⟩ "/s/.cmake_build" "/s/.a" ∧
    Drifts { files := detour } detourMade ⟨"/x/../s", [], true, false⟩ "/x/../s/.cmake_build"
      "/x/../s/.a" :=
  ⟨drifts_linked, drifts_detour⟩

/-- Where the user names the directory it is chosen again. -/
theorem select_again_named :
    ∃ c' d', select { files := linkedMade } ⟨"/s", ["/s/.cmake_build"], true, false⟩ = .ok c' ∧
      c'.dir? = some d' ∧ SamePlace linkedMade [] "/s/.cmake_build" d' := by
  have hfirst : select { files := linked } ⟨"/s", ["/s/.cmake_build"], true, false⟩ =
      .ok (.created "/s/.cmake_build") := by
    have habsolute : Path.absolute? (render []) "/s/.cmake_build" = some "/s/.cmake_build" := by
      decide
    rw [select, List.find?_cons_of_neg (by rw [hasCache_default_linked]; exact Bool.false_ne_true),
      List.find?_nil]
    dsimp only
    rw [discovered?_linked, toCreate]
    dsimp only
    rw [Host.absolute?, Host.workPath, habsolute]
    rfl
  obtain ⟨c', d', hc', hd', hplace | ⟨hnone, -⟩⟩ :=
    select_again sound_linked rfl hfirst rfl drifts_linked.configured
  · exact ⟨c', d', hc', hd', hplace⟩
  · cases hnone

end BuildDirChoice

end LintHooks.CMake
