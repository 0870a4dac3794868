import LintHooks.CMake.Project
import LintHooks.Proofs.CMake.BuildDir
import LintHooks.Proofs.Host.Invariant
import LintHooks.Proofs.Host.Told
import LintHooks.Proofs.Text.Order
set_option autoImplicit false

/-!
# CMake: which build directory is chosen

A directory with a cache comes before one without, one that the user names before one inside the
source directory, an earlier one of the user's before a later one, and of those inside the source
directory the one with the least name.  Only if there is no cache in all of them is a directory
made, or none is used where CMake must not run.  The choice is settled by this order (`Chosen`), and
it cannot be made just where it falls on the empty path, which has no absolute form.

The main result is `resolveBuildDir_chosen`.  It has two directions: the choice that is made is
`Chosen` (`chosen_select`), and what is `Chosen` is the choice that is made (`Chosen.eq_select`).
Both follow the cases of `Chosen`, with one lemma for each place that is looked at: the directories
of the user (`select_of_first`, `select_of_unnamed`), the names inside the source directory
(`discovered?_eq_some_iff_least`), and what remains (`select_of_unfilled`).  What the choice makes
of a project is `runOn_resolveBuildDir`.  The exception is `resolveBuildDir_empty`: the empty path
leads to a cache, and there is no absolute path to choose it under (`absolute?_eq_none_iff`).
-/

namespace LintHooks.CMake

namespace BuildDirChoice

open FileSystem

variable {launcher : Launcher} {h : Host} {o : Options} {source : Location}
  {r : Except Failure (Option String)}

/-! ## The order of preference -/

/-- A directory offers a name if that is the name of a directory in it, or of a link to one, and a
cache is there. -/
def Offers (h : Host) (source : Location) (name : String) : Prop :=
  (h.files.get? (source ++ [name])).isSome = true ∧
    h.isDirectory (Path.join (render source) name) = true ∧
    hasCache h (Path.join (render source) name) = true

/-- The user names the directory first of all that have a cache. -/
def First (h : Host) (o : Options) (dir : String) : Prop :=
  hasCache h dir = true ∧
    ∃ before after, o.candidates = before ++ dir :: after ∧ ∀ d ∈ before, hasCache h d = false

/-- The name that is offered is the least one by its bytes. -/
def Least (h : Host) (source : Location) (name : String) : Prop :=
  Offers h source name ∧ ∀ n, Offers h source n → Text.bytesOf name ≤ Text.bytesOf n

/-- No directory that the user names has a cache. -/
def Unnamed (h : Host) (o : Options) : Prop := ∀ d ∈ o.candidates, hasCache h d = false

/-- No directory that is looked at has a cache. -/
def Unfilled (h : Host) (source : Location) (o : Options) : Prop :=
  Unnamed h o ∧ (o.discovery = true → ∀ name, ¬ Offers h source name)

/-- What the choice comes to: a directory that is used, none, or a failure. -/
inductive Chosen (h : Host) (source : Location) (o : Options) :
    Except Failure (Option String) → Prop where
  | located {dir : String} {loc : Location} : First h o dir →
    h.files.locate h.workDir dir = .ok loc → h.files.get? loc = some .directory →
    Chosen h source o (.ok (some (render loc)))
  /-- The empty path stands for the working directory where a cache is looked for, and for nothing
  where an absolute path is. -/
  | unlocated : First h o "" → Chosen h source o (.error (.invalidDirectory ""))
  | discovered {name : String} : Unnamed h o → o.discovery = true → Least h source name →
    Chosen h source o (.ok (some (Path.join (render source) name)))
  | nothing : Unfilled h source o → o.noConfigure = true → Chosen h source o (.ok none)
  | created {first dir : String} {rest : List String} : Unfilled h source o →
    o.noConfigure = false → o.candidates = first :: rest → h.absolute? first = some dir →
    Chosen h source o (.ok (some dir))
  | uncreated {rest : List String} : Unfilled h source o → o.noConfigure = false →
    o.candidates = "" :: rest → Chosen h source o (.error (.invalidBuildDir ""))
  | createdDefault : Unfilled h source o → o.noConfigure = false → o.candidates = [] →
    Chosen h source o (.ok (some (Path.join (render source) defaultBuildDir)))

/-! ## How the choice is made -/

theorem find?_hasCache_eq_some_iff {dir : String} :
    o.candidates.find? (hasCache h) = some dir ↔ First h o dir := by
  rw [List.find?_eq_some_iff_append]
  simp [First]

theorem find?_hasCache_eq_none_iff : o.candidates.find? (hasCache h) = none ↔ Unnamed h o := by
  simp [Unnamed]

/-- Where nothing of the user's has a cache what is found inside the source directory is taken. -/
theorem select_of_unnamed (hunnamed : Unnamed h o) :
    select h o = match discovered? h o with
      | some dir => .ok (.discovered dir)
      | none => if o.noConfigure then .ok .nothing else (toCreate h o).map .created := by
  have hfind := find?_hasCache_eq_none_iff.2 hunnamed
  cases hdiscovered : discovered? h o <;> simp only [select, hfind, hdiscovered]

theorem mem_buildDirNames_iff {name : String} (hs : h.files.Sound)
    (hsource : h.files.get? source = some .directory) :
    name ∈ buildDirNames h (render source) ↔ Offers h source name := by
  have hlocate := @locate_render _ h.workDir _ hs hsource
  rw [mem_buildDirNames]
  constructor
  · rintro ⟨loc, hloc, -, hoffers⟩
    obtain rfl := Except.ok.inj (hlocate.symm.trans hloc)
    exact hoffers
  · intro hoffers
    exact ⟨source, hlocate, hsource, hoffers⟩

theorem discovered?_eq_some_iff_least {dir : String} (hs : h.files.Sound)
    (hsource : h.files.get? source = some .directory) (ho : o.sourceDir = render source) :
    discovered? h o = some dir ↔
      o.discovery = true ∧ ∃ name, Least h source name ∧ Path.join (render source) name = dir := by
  rw [discovered?_eq_some_iff, ho]
  simp only [mem_buildDirNames_iff hs hsource, Text.le_iff_bytesOf, Least, and_assoc]

theorem discovered?_eq_none_iff (hs : h.files.Sound)
    (hsource : h.files.get? source = some .directory) (ho : o.sourceDir = render source) :
    discovered? h o = none ↔ (o.discovery = true → ∀ name, ¬ Offers h source name) := by
  rw [discovered?, ho]
  cases o.discovery with
  | false => exact iff_of_true rfl fun htrue => absurd htrue Bool.false_ne_true
  | true =>
    simp only [if_true, Option.map_eq_none_iff, List.head?_eq_none_iff, forall_const,
      List.eq_nil_iff_forall_not_mem, mem_buildDirNames_iff hs hsource]

/-- Where nothing has a cache no directory is used, or one is made. -/
theorem select_of_unfilled (hs : h.files.Sound) (hsource : h.files.get? source = some .directory)
    (ho : o.sourceDir = render source) (hunfilled : Unfilled h source o) :
    select h o = if o.noConfigure then .ok .nothing else (toCreate h o).map .created := by
  rw [select_of_unnamed hunfilled.1, (discovered?_eq_none_iff hs hsource ho).2 hunfilled.2]

theorem absolute?_eq_none_iff {p : String} : h.absolute? p = none ↔ p = "" := by
  rw [Host.absolute?, Path.absolute?]
  split <;> simp_all

/-- A directory with a cache has its canonical path, and the empty path has none. -/
theorem normalDir_of_hasCache {dir : String} (hcache : hasCache h dir = true) :
    (∃ loc, h.files.locate h.workDir dir = .ok loc ∧ h.files.get? loc = some .directory ∧
        normalDir h dir = .ok (render loc)) ∨
      dir = "" ∧ normalDir h dir = .error (.invalidDirectory "") := by
  by_cases hne : dir = ""
  · subst hne
    exact .inr ⟨rfl, rfl⟩
  · obtain ⟨loc, hlocate, hloc⟩ := directory_of_hasCache hne hcache
    exact .inl ⟨loc, hlocate, hloc, normalDir_of_locate hlocate hloc⟩

theorem select_of_first {dir : String} (hfirst : First h o dir) :
    select h o = (normalDir h dir).map .located := by
  rw [select, find?_hasCache_eq_some_iff.2 hfirst]

/-- The choice that is made follows the order of preference. -/
theorem chosen_select (hs : h.files.Sound) (hsource : h.files.get? source = some .directory)
    (ho : o.sourceDir = render source) : Chosen h source o ((select h o).map dir?) := by
  cases hfind : o.candidates.find? (hasCache h) with
  | some dir =>
    have hfirst := find?_hasCache_eq_some_iff.1 hfind
    rw [select_of_first hfirst]
    rcases normalDir_of_hasCache hfirst.1 with ⟨loc, hlocate, hloc, hnormal⟩ | ⟨rfl, hnormal⟩
    · rw [hnormal]
      exact .located hfirst hlocate hloc
    · rw [hnormal]
      exact .unlocated hfirst
  | none =>
    have hunnamed := find?_hasCache_eq_none_iff.1 hfind
    cases hdiscovered : discovered? h o with
    | some dir =>
      obtain ⟨hdiscovery, name, hleast, rfl⟩ :=
        (discovered?_eq_some_iff_least hs hsource ho).1 hdiscovered
      rw [select_of_unnamed hunnamed, hdiscovered]
      exact .discovered hunnamed hdiscovery hleast
    | none =>
      have hunfilled : Unfilled h source o :=
        ⟨hunnamed, (discovered?_eq_none_iff hs hsource ho).1 hdiscovered⟩
      rw [select_of_unfilled hs hsource ho hunfilled]
      cases hno : o.noConfigure with
      | true => exact .nothing hunfilled hno
      | false =>
        rw [if_neg Bool.false_ne_true, toCreate]
        cases hcandidates : o.candidates with
        | nil =>
          rw [ho]
          exact .createdDefault hunfilled hno hcandidates
        | cons first rest =>
          cases habsolute : h.absolute? first with
          | some dir =>
            dsimp only
            rw [habsolute]
            exact .created hunfilled hno hcandidates habsolute
          | none =>
            obtain rfl := absolute?_eq_none_iff.1 habsolute
            dsimp only
            rw [habsolute]
            exact .uncreated hunfilled hno hcandidates

/-- The order of preference leaves no choice. -/
theorem Chosen.eq_select (hs : h.files.Sound) (hsource : h.files.get? source = some .directory)
    (ho : o.sourceDir = render source) (hchosen : Chosen h source o r) :
    r = (select h o).map dir? := by
  cases hchosen with
  | located hfirst hlocate hloc =>
    rw [select_of_first hfirst, normalDir_of_locate hlocate hloc]
    rfl
  | unlocated hfirst =>
    rw [select_of_first hfirst]
    rfl
  | discovered hunnamed hdiscovery hleast =>
    rw [select_of_unnamed hunnamed, (discovered?_eq_some_iff_least hs hsource ho).2
      ⟨hdiscovery, _, hleast, rfl⟩]
    rfl
  | nothing hunfilled hno =>
    rw [select_of_unfilled hs hsource ho hunfilled, hno]
    rfl
  | created hunfilled hno hcandidates habsolute =>
    rw [select_of_unfilled hs hsource ho hunfilled, hno, toCreate, hcandidates]
    dsimp only
    rw [habsolute]
    rfl
  | uncreated hunfilled hno hcandidates =>
    rw [select_of_unfilled hs hsource ho hunfilled, hno, toCreate, hcandidates]
    rfl
  | createdDefault hunfilled hno hcandidates =>
    rw [select_of_unfilled hs hsource ho hunfilled, hno, toCreate, hcandidates, ho]
    rfl

/-- Where CMake must not run nothing is made, so what is chosen has a cache. -/
theorem Chosen.hasCache {dir : String} (hs : h.files.Sound) (hno : o.noConfigure = true)
    (hchosen : Chosen h source o (.ok (some dir))) : hasCache h dir = true := by
  cases hchosen with
  | located hfirst hlocate hloc => exact hasCache_render hs hfirst.1 hlocate hloc
  | discovered _ _ hleast => exact hleast.1.2.2
  | created _ hrun => cases hno.symm.trans hrun
  | createdDefault _ hrun => cases hno.symm.trans hrun

end BuildDirChoice

/-! ## The project -/

namespace Project

open BuildDirChoice

variable {launcher : Launcher} {h : Host} {p : Project} {source : Location}

/-- What the choice makes of a project. -/
def withChoice (p : Project) : Except Failure (Option String) → Project
  | .ok dir => { p with buildDir := dir }
  | .error _ => p

theorem runOn_resolveBuildDir (candidates : List String) (discovery : Bool) :
    ∃ s, (resolveBuildDir candidates discovery).runOn p launcher h =
      let o : Options := ⟨p.sourceDir, candidates, discovery, p.noConfigure⟩
      let r := (BuildDirChoice.select h o).map dir?
      ((r.map fun _ => (), p.withChoice r), h.told s) := by
  unfold resolveBuildDir
  rw [ActionOn.runOn_bind_get, ActionOn.runOn_bind_liftM _ (Action.runOn_host launcher h)]
  dsimp only
  cases BuildDirChoice.select h ⟨p.sourceDir, candidates, discovery, p.noConfigure⟩ with
  | error f => exact ⟨"", by rw [h.told_empty]; rfl⟩
  | ok c =>
    dsimp only
    rw [ActionOn.runOn_bind_liftM _ (Action.runOn_tell_shown launcher h _ _ _)]
    exact ⟨_, rfl⟩

/-- The build directory of a project is chosen by the order of preference, and by nothing else.
Where CMake must not run a directory that is chosen has a cache. -/
theorem resolveBuildDir_chosen (hs : h.files.Sound)
    (hsource : h.files.get? source = some .directory)
    (hp : p.sourceDir = FileSystem.render source) (candidates : List String) (discovery : Bool) :
    ∃ r s, (resolveBuildDir candidates discovery).runOn p launcher h =
        ((r.map fun _ => (), p.withChoice r), h.told s) ∧
      (∀ r', Chosen h source ⟨p.sourceDir, candidates, discovery, p.noConfigure⟩ r' ↔ r' = r) ∧
      (p.noConfigure = true → ∀ dir, r = .ok (some dir) → hasCache h dir = true) := by
  obtain ⟨s, hrun⟩ := @runOn_resolveBuildDir launcher h p candidates discovery
  have hchosen := chosen_select (o := ⟨p.sourceDir, candidates, discovery, p.noConfigure⟩) hs
    hsource hp
  refine ⟨_, s, hrun, fun r' => ⟨Chosen.eq_select hs hsource hp, ?_⟩, fun hno dir hdir => ?_⟩
  · rintro rfl
    exact hchosen
  · rw [hdir] at hchosen
    exact hchosen.hasCache hs hno

/-! ### A link among the directories -/

/-- A source directory whose name looks like a pattern.  The least name in it is that of a link. -/
def starred : Host where
  files := ⟨[(["s[*]"], .directory), (["s[*]", ".a"], .link "../t"), (["s[*]", "b"], .directory),
    (["s[*]", "b", "CMakeCache.txt"], .file .empty false), (["t"], .directory),
    (["t", "CMakeCache.txt"], .file .empty false)]⟩

/-- A project of that directory. -/
def unsettled : Project where
  command := none
  sourceDir := "/s[*]"
  args := []
  noConfigure := false
  clean := false

theorem sound_starred : starred.files.Sound := .of_entries (by decide)

theorem leads_starred {ys : List String} {loc : Location}
    (h : FileSystem.Leads starred.files 0 ["t"] ys loc) :
    FileSystem.Leads starred.files 1 [] ("s[*]" :: ".a" :: ys) loc := by
  have hsteps : FileSystem.steps "../t" = ["..", "t"] := by decide
  refine .step rfl (by decide) (by decide) rfl nofun (.link rfl (by decide) (by decide) rfl
    (by decide) ?_)
  rw [hsteps, if_neg (by decide)]
  exact .up rfl (.step rfl (by decide) (by decide) rfl nofun h)

theorem least_starred : Least starred ["s[*]"] ".a" := by
  have hnames : FileSystem.names "/s[*]/.a" = ["s[*]", ".a"] := by decide
  have hpath : Path.join (FileSystem.render ["s[*]"]) ".a" = "/s[*]/.a" := by decide
  have hlocate : starred.files.locate [] "/s[*]/.a" = .ok ["t"] := by
    refine (FileSystem.locate_directory_iff rfl).2 ⟨by decide, by decide, 1, by decide, ?_⟩
    rw [hnames, FileSystem.origin, if_pos (by decide)]
    exact leads_starred .nil
  have hcache : hasCache starred "/s[*]/.a" = true :=
    hasCache_of_file hlocate rfl ⟨_, _, rfl⟩
  refine ⟨⟨rfl, ?_, by rwa [hpath]⟩, fun n hn => ?_⟩
  · rw [hpath]
    exact FileSystem.isDirectory_iff.2 ⟨_, hlocate, rfl⟩
  · have hmem := FileSystem.mem_children.2 hn.1
    have hchildren : starred.files.children ["s[*]"] = [".a", "b"] := by decide
    rw [hchildren] at hmem
    have hleast : ∀ n ∈ [".a", "b"], ".a" ≤ n := by decide
    exact Text.le_iff_bytesOf.1 (hleast n hmem)

theorem hasCache_starred : hasCache starred "b" = false := by
  rw [← Bool.not_eq_true, hasCache_iff_leads]
  rintro ⟨-, _, -, _, hleads, -⟩
  have hnames : FileSystem.names "b" ++ [cacheName] = ["b", "CMakeCache.txt"] := by decide
  rw [hnames, FileSystem.origin, if_neg (by decide)] at hleads
  obtain ⟨_, _, _, -, hfirst, -⟩ := @FileSystem.Leads.split _ _ _ _ ["b"] _ hleads
  have hnone : starred.files.get? ([] ++ ["b"]) = none := rfl
  rcases hfirst.of_single (by decide) with ⟨_, he⟩ | ⟨-, _, he⟩ <;> cases hnone.symm.trans he

theorem resolveBuildDir_chosen_starred : ∃ s,
    (resolveBuildDir ["b"] true).runOn unsettled programless starred =
      ((.ok (), { unsettled with buildDir := some "/s[*]/.a" }), starred.told s) := by
  obtain ⟨r, s, hrun, hchosen, -⟩ := @resolveBuildDir_chosen programless starred unsettled
    ["s[*]"] sound_starred rfl (by decide) ["b"] true
  have hunnamed : Unnamed starred ⟨"/s[*]", ["b"], true, false⟩ := by
    intro d hd
    rw [List.mem_singleton.1 hd, hasCache_starred]
  have hpath : Path.join (FileSystem.render ["s[*]"]) ".a" = "/s[*]/.a" := by decide
  have hdiscovered := (hchosen _).1 (.discovered hunnamed rfl least_starred)
  rw [hpath] at hdiscovered
  rw [← hdiscovered] at hrun
  exact ⟨s, hrun⟩

/-! ### The empty path -/

/-- The working directory has a cache. -/
def filled : Host where
  files := ⟨[(["CMakeCache.txt"], .file .empty false)]⟩

theorem hasCache_filled : hasCache filled "" = true := by
  have hcache : filled.files.locate [] cacheName = .ok ["CMakeCache.txt"] :=
    FileSystem.locate_name isName_cacheName noNul_cacheName rfl rfl nofun
  exact hasCache_iff.2 ⟨_, hcache, _, _, rfl⟩

/-- A project of the working directory, which is the root. -/
def rootProject : Project := { unsettled with sourceDir := FileSystem.render [] }

/-- The empty path leads to a cache, but there is no absolute path for it to be chosen under. -/
theorem resolveBuildDir_empty : hasCache filled "" = true ∧
    (resolveBuildDir [""] true).runOn rootProject programless filled =
      ((.error (.invalidDirectory ""), rootProject), filled) := by
  refine ⟨hasCache_filled, ?_⟩
  have hfirst : First filled ⟨rootProject.sourceDir, [""], true, false⟩ "" :=
    ⟨hasCache_filled, [], [], rfl, nofun⟩
  have hselect : BuildDirChoice.select filled
      ⟨rootProject.sourceDir, [""], true, rootProject.noConfigure⟩ =
        .error (.invalidDirectory "") := select_of_first hfirst
  unfold resolveBuildDir
  rw [ActionOn.runOn_bind_get, ActionOn.runOn_bind_liftM _ (Action.runOn_host _ _)]
  simp only [hselect]
  rfl

end Project

end LintHooks.CMake
