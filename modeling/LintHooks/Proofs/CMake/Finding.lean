import LintHooks.CMake.Project
import LintHooks.Proofs.FileSystem.Names
import LintHooks.Proofs.Host.Invariant
import LintHooks.Proofs.Host.Told
set_option autoImplicit false

/-!
# CMake: where it is found

CMake has two names, and two places where a name is looked for: the search path and the Python
environment.  The search goes from name to name and looks in both places for each of them.  So the
command that is found is the first one to answer in that order, and none is found just where none
answers; but a program of the first name in the environment comes before one of the second name on
the search path, which a search from place to place would have taken.

The main result is `find_first`.  Commands that answer in the same way whenever they are asked are
`Steady`, and asking one after the other comes to picking the first of a list
(`runOn_firstAnswering`).  So the search is to pick the first of `byName` (`runOn_findAmong`), and
the other search would pick the first of `byPlace`.  The two lists have the same four parts with the
inner ones exchanged (`byName_eq`, `byPlace_eq`), and comparing their first answers gives the
condition under which they differ (`firstOf_byName_eq_iff`): a command is `Preempted`.  An
environment in which this happens is `find_passes_over`.
-/

namespace LintHooks

variable {launcher : Launcher} {h : Host} {responds : List String → Bool}

namespace Tool

/-! ## Commands that answer -/

/-- Certain commands answer when they are asked for their version, whatever has been told, and
asking leaves the host as it is. -/
def Steady (launcher : Launcher) (h : Host) (responds : List String → Bool) : Prop :=
  ∀ program args s, ∃ r,
    launcher ⟨program, args ++ ["--version"], none⟩ (h.told s) = (r, h.told s) ∧
      (responds (program :: args) = true ↔ ∃ o, r = .ok o ∧ o.success = true)

/-- The first of several commands that answers. -/
def firstOf (responds : List String → Bool) (ts : List Trial) : Option (List String) :=
  (ts.find? fun t => responds t.command).map Trial.command

theorem firstOf_append (ts us : List Trial) :
    firstOf responds (ts ++ us) = (firstOf responds ts).or (firstOf responds us) := by
  rw [firstOf, firstOf, firstOf, List.find?_append, Option.map_or]

theorem firstOf_eq_none_iff {ts : List Trial} :
    firstOf responds ts = none ↔ ∀ t ∈ ts, responds t.command = false := by
  simp [firstOf]

theorem exists_of_firstOf {ts : List Trial} {command : List String}
    (hfirst : firstOf responds ts = some command) :
    ∃ t ∈ ts, t.command = command ∧ responds command = true := by
  obtain ⟨t, ht, rfl⟩ := Option.map_eq_some_iff.1 hfirst
  have hresponds := List.find?_some ht
  exact ⟨t, List.mem_of_find?_eq_some ht, rfl, hresponds⟩

theorem runOn_answers (hsteady : Steady launcher h responds) (program : String)
    (args : List String) (s : String) :
    (answers (program :: args)).runOn launcher (h.told s) =
      (.ok (responds (program :: args)), h.told s) := by
  obtain ⟨r, hr, hresponds⟩ := hsteady program args s
  have hask : (askVersion (program :: args)).runOn launcher (h.told s) = (.ok r, h.told s) := by
    have hlaunch : (Action.launch ⟨program, args ++ ["--version"], none⟩).runOn launcher
        (h.told s) = (.ok (launcher ⟨program, args ++ ["--version"], none⟩ (h.told s)).1,
          (launcher ⟨program, args ++ ["--version"], none⟩ (h.told s)).2) := rfl
    rw [hr] at hlaunch
    exact hlaunch
  rw [answers, Action.runOn_bind_eq hask]
  cases r with
  | error e =>
    have hfalse : responds (program :: args) = false := by
      rw [← Bool.not_eq_true, hresponds]
      rintro ⟨o, ⟨⟩, -⟩
    rw [hfalse]
    rfl
  | ok o =>
    have hsame : responds (program :: args) = o.success := by
      rw [Bool.eq_iff_iff, hresponds]
      simp
    rw [hsame]
    rfl

/-- Of several commands the first one that answers is found. -/
theorem runOn_firstAnswering (hsteady : Steady launcher h responds) {ts : List Trial}
    (hts : ∀ t ∈ ts, t.command ≠ []) (s : String) :
    ∃ s', (firstAnswering ts).runOn launcher (h.told s) =
      (.ok (firstOf responds ts), h.told s') := by
  induction ts generalizing s with
  | nil => exact ⟨s, rfl⟩
  | cons t ts ih =>
    obtain ⟨hcommand, hts⟩ := List.forall_mem_cons.1 hts
    obtain ⟨program, args, heq⟩ := List.exists_cons_of_ne_nil hcommand
    rw [firstAnswering, heq, Action.runOn_bind_eq (runOn_answers hsteady program args s), ← heq]
    cases hresponds : responds t.command with
    | true =>
      have hfirst : firstOf responds (t :: ts) = some t.command := by simp [firstOf, hresponds]
      rw [hfirst, if_pos rfl]
      cases t.note with
      | none => exact ⟨s, rfl⟩
      | some note =>
        obtain ⟨s', hs'⟩ := Action.runOn_debug launcher (h.told s) .tools note
        dsimp only
        rw [Action.runOn_bind_eq hs', h.told_told]
        exact ⟨s ++ s', rfl⟩
    | false =>
      have hfirst : firstOf responds (t :: ts) = firstOf responds ts := by
        simp [firstOf, hresponds]
      rw [hfirst, if_neg Bool.false_ne_true]
      exact ih hts s

/-- What the environment offers under a name is a program in it, or the interpreter with a script in
it. -/
theorem command_of_mem_environmentTrials {name : String} {t : Trial}
    (ht : t ∈ environmentTrials h name) :
    ∃ dir, t.command.getLast? = some (Path.join dir name) := by
  rw [environmentTrials] at ht
  split at ht
  · cases ht
  rcases List.mem_append.1 ht with ht | ht
  · obtain ⟨dir, -, rfl⟩ := List.mem_map.1 ht
    exact ⟨dir, rfl⟩
  · split at ht
    · cases ht
    · obtain ⟨dir, -, rfl⟩ := List.mem_map.1 ht
      exact ⟨dir, rfl⟩

end Tool

namespace CMake

open Tool

/-! ## The search -/

/-- What the search path offers under a name is a program in one of its directories. -/
theorem command_of_mem_pathTrials {name : String} {t : Trial} (ht : t ∈ pathTrials h name) :
    ∃ path ∈ candidates h name, t.command = [path] := by
  rw [pathTrials, Option.mem_toList, Option.map_eq_some_iff] at ht
  obtain ⟨path, hpath, rfl⟩ := ht
  exact ⟨path, List.mem_of_find?_eq_some hpath, rfl⟩

/-- What both places offer under a name. -/
def trials (h : Host) (name : String) : List Trial := pathTrials h name ++ environmentTrials h name

/-- All commands that may be found, from name to name. -/
def byName (h : Host) : List Trial := names.flatMap (trials h)

/-- The same commands from place to place. -/
def byPlace (h : Host) : List Trial :=
  names.flatMap (pathTrials h) ++ names.flatMap (environmentTrials h)

theorem command_ne_nil_of_mem_pathTrials {name : String} {t : Trial}
    (ht : t ∈ pathTrials h name) : t.command ≠ [] := by
  obtain ⟨path, -, hcommand⟩ := command_of_mem_pathTrials ht
  rw [hcommand]
  exact List.cons_ne_nil path []

theorem command_ne_nil_of_mem_environmentTrials {name : String} {t : Trial}
    (ht : t ∈ environmentTrials h name) : t.command ≠ [] := by
  obtain ⟨dir, hlast⟩ := command_of_mem_environmentTrials ht
  intro hnil
  rw [hnil] at hlast
  cases hlast

/-- For each name the search path comes before the environment, and the next name after both. -/
theorem runOn_findAmong (hsteady : Steady launcher h responds) (ns : List String) (s : String) :
    ∃ s', (findAmong ns).runOn launcher (h.told s) =
      (.ok (firstOf responds (ns.flatMap (trials h))), h.told s') := by
  induction ns generalizing s with
  | nil => exact ⟨s, rfl⟩
  | cons name ns ih =>
    have hpathTrials : pathTrials (h.told s) name = pathTrials h name := rfl
    obtain ⟨s₁, hpath⟩ := runOn_firstAnswering hsteady
      (fun _ => @command_ne_nil_of_mem_pathTrials h name _) s
    rw [findAmong, Action.runOn_bind_host, hpathTrials, Action.runOn_bind_eq hpath,
      List.flatMap_cons, firstOf_append, trials, firstOf_append]
    cases firstOf responds (pathTrials h name) with
    | some command => exact ⟨s₁, rfl⟩
    | none =>
      have henvironmentTrials : environmentTrials (h.told s₁) name = environmentTrials h name := rfl
      obtain ⟨s₂, henvironment⟩ := runOn_firstAnswering hsteady
        (fun _ => @command_ne_nil_of_mem_environmentTrials h name _) s₁
      dsimp only
      rw [Action.runOn_bind, findInEnvironment, Action.runOn_bind_host, henvironmentTrials,
        henvironment]
      cases firstOf responds (environmentTrials h name) with
      | some command => exact ⟨s₂, rfl⟩
      | none => exact ih s₂

/-! ## Names before places -/

/-- The environment has the first name and the search path has not, so that what the search path
offers under the second name counts for nothing. -/
def Preempted (h : Host) (responds : List String → Bool) : Prop :=
  (∀ t ∈ pathTrials h "cmake", responds t.command = false) ∧
    (∃ t ∈ environmentTrials h "cmake", responds t.command = true) ∧
    ∃ t ∈ pathTrials h "cmake3", responds t.command = true

theorem byName_eq (h : Host) :
    byName h = pathTrials h "cmake" ++ (environmentTrials h "cmake" ++
      (pathTrials h "cmake3" ++ environmentTrials h "cmake3")) := by
  simp [byName, names, trials]

theorem byPlace_eq (h : Host) :
    byPlace h = pathTrials h "cmake" ++ (pathTrials h "cmake3" ++
      (environmentTrials h "cmake" ++ environmentTrials h "cmake3")) := by
  simp [byPlace, names]

/-- A program of the second name on the search path is none that the environment offers under the
first name. -/
theorem command_ne {t u : Trial} (ht : t ∈ environmentTrials h "cmake")
    (hu : u ∈ pathTrials h "cmake3") : t.command ≠ u.command := by
  have hlast {name dir : String} (hname : Path.IsName name) :
      (Path.components (Path.join dir name)).getLast? = some (.name name) :=
    FileSystem.getLast?_components_join hname dir
  obtain ⟨dir, henvironment⟩ := command_of_mem_environmentTrials ht
  obtain ⟨path, hpath, hcommand⟩ := command_of_mem_pathTrials hu
  have hsingle : ¬ 1 < (Path.components "cmake3").length := by decide
  rw [candidates, if_neg hsingle] at hpath
  obtain ⟨dir', -, rfl⟩ := List.mem_map.1 hpath
  intro heq
  rw [heq, hcommand, List.getLast?_singleton, Option.some.injEq] at henvironment
  have hcomponents := congrArg (fun p => (Path.components p).getLast?) henvironment
  rw [hlast (by decide), hlast (by decide)] at hcomponents
  exact absurd hcomponents (by decide)

/-- The search from name to name and the one from place to place differ just where a program of the
first name in the environment answers and one of the second name on the search path does. -/
theorem firstOf_byName_eq_iff :
    firstOf responds (byName h) = firstOf responds (byPlace h) ↔ ¬ Preempted h responds := by
  rw [byName_eq, byPlace_eq]
  simp only [firstOf_append]
  cases hpath : firstOf responds (pathTrials h "cmake") with
  | some command =>
    obtain ⟨t, ht, rfl, hresponds⟩ := exists_of_firstOf hpath
    refine iff_of_true rfl ?_
    rintro ⟨hnone, -⟩
    exact Bool.false_ne_true ((hnone t ht).symm.trans hresponds)
  | none =>
    cases henvironment : firstOf responds (environmentTrials h "cmake") with
    | none =>
      refine iff_of_true rfl ?_
      rintro ⟨-, ⟨t, ht, hresponds⟩, -⟩
      exact Bool.false_ne_true ((firstOf_eq_none_iff.1 henvironment t ht).symm.trans hresponds)
    | some command =>
      cases hsecond : firstOf responds (pathTrials h "cmake3") with
      | none =>
        refine iff_of_true rfl ?_
        rintro ⟨-, -, t, ht, hresponds⟩
        exact Bool.false_ne_true ((firstOf_eq_none_iff.1 hsecond t ht).symm.trans hresponds)
      | some command' =>
        obtain ⟨t, ht, rfl, hresponds⟩ := exists_of_firstOf henvironment
        obtain ⟨u, hu, rfl, hresponds'⟩ := exists_of_firstOf hsecond
        refine iff_of_false (fun heq => command_ne ht hu (Option.some.inj heq)) ?_
        exact Classical.not_not.2
          ⟨firstOf_eq_none_iff.1 hpath, ⟨t, ht, hresponds⟩, u, hu, hresponds'⟩

/-- The command that is found is the first one to answer from name to name, and none is found just
where none answers.  It is the first one from place to place, too, unless a program of the second
name on the search path has been preempted by one of the first name in the environment. -/
theorem find_first (hsteady : Steady launcher h responds) :
    ∃ s, find.runOn launcher h = (.ok (firstOf responds (byName h)), h.told s) ∧
      (firstOf responds (byName h) = none ↔ ∀ t ∈ byName h, responds t.command = false) ∧
      (firstOf responds (byName h) = firstOf responds (byPlace h) ↔ ¬ Preempted h responds) := by
  obtain ⟨s, hs⟩ := runOn_findAmong hsteady names ""
  rw [h.told_empty] at hs
  exact ⟨s, hs, firstOf_eq_none_iff, firstOf_byName_eq_iff⟩

/-! ### A search path that is passed over -/

/-- The search path has a program of the second name. -/
def pathSecond : Host where
  files := ⟨[(["bin"], .directory), (["bin", "cmake3"], .file .empty true)]⟩
  environment := [("PATH", "/bin"), ("VIRTUAL_ENV", "/v")]

/-- Two programs are known, one of each name and in each place. -/
def twoKnown : Launcher := fun l h =>
  if l.program ∈ ["/v/bin/cmake", "/bin/cmake3"] then (.ok {}, h) else (.error .notFound, h)

/-- The commands that these programs make. -/
def respondsTwo (command : List String) : Bool :=
  command.head?.any fun program => program ∈ ["/v/bin/cmake", "/bin/cmake3"]

theorem steady_twoKnown (h : Host) : Steady twoKnown h respondsTwo := by
  intro program args s
  by_cases hknown : program ∈ ["/v/bin/cmake", "/bin/cmake3"]
  · refine ⟨.ok {}, if_pos hknown, iff_of_true (decide_eq_true hknown) ⟨{}, rfl, rfl⟩⟩
  · refine ⟨.error .notFound, if_neg hknown, iff_of_false ?_ ?_⟩
    · exact fun htrue => hknown (of_decide_eq_true htrue)
    · rintro ⟨o, ⟨⟩, -⟩

theorem pathTrials_pathSecond :
    pathTrials pathSecond "cmake3" = [{ command := ["/bin/cmake3"] }] := by
  have hpath : Path.join (FileSystem.render ["bin"]) "cmake3" = "/bin/cmake3" := by decide
  have hsound : pathSecond.files.Sound := .of_entries (by decide)
  have htool : pathSecond.files.locate [] (Path.join (FileSystem.render ["bin"]) "cmake3") = _ :=
    FileSystem.locate_join_of_get? (by decide) (by decide)
      (FileSystem.locate_render hsound rfl) rfl rfl nofun
  rw [hpath] at htool
  have hexecutable : pathSecond.isExecutable "/bin/cmake3" = true := by
    rw [Host.isExecutable, FileSystem.isExecutable, FileSystem.entry?]
    have hwork : pathSecond.workDir = [] := rfl
    rw [hwork, htool]
    rfl
  have hcandidates : candidates pathSecond "cmake3" = ["/bin/cmake3"] := by decide
  rw [pathTrials, locate?, hcandidates, List.find?_cons_of_pos hexecutable]
  rfl

theorem firstOf_path : firstOf respondsTwo (pathTrials pathSecond "cmake") = none := by
  refine firstOf_eq_none_iff.2 fun t ht => ?_
  obtain ⟨path, hpath, hcommand⟩ := command_of_mem_pathTrials ht
  have hcandidates : candidates pathSecond "cmake" = ["/bin/cmake"] := by decide
  rw [hcandidates, List.mem_singleton] at hpath
  rw [hcommand, hpath]
  decide

theorem firstOf_environment :
    firstOf respondsTwo (environmentTrials pathSecond "cmake") = some ["/v/bin/cmake"] := by
  have hroot : environmentRoot? pathSecond = some "/v" := rfl
  rw [environmentTrials, hroot]
  dsimp only
  rw [firstOf_append]
  rfl

theorem preempted_pathSecond : Preempted pathSecond respondsTwo := by
  obtain ⟨t, ht, hcommand, hresponds⟩ := exists_of_firstOf firstOf_environment
  refine ⟨firstOf_eq_none_iff.1 firstOf_path, ⟨t, ht, hcommand ▸ hresponds⟩, ?_⟩
  rw [pathTrials_pathSecond]
  exact ⟨_, List.mem_cons_self, by decide⟩

theorem find_first_pathSecond : Steady twoKnown pathSecond respondsTwo ∧
    ∃ s, find.runOn twoKnown pathSecond =
        (.ok (firstOf respondsTwo (byName pathSecond)), pathSecond.told s) ∧
      firstOf respondsTwo (byName pathSecond) ≠ firstOf respondsTwo (byPlace pathSecond) := by
  obtain ⟨s, hs, -, hsame⟩ := find_first (steady_twoKnown pathSecond)
  refine ⟨steady_twoKnown pathSecond, s, hs, fun heq => ?_⟩
  exact hsame.1 heq preempted_pathSecond

/-- The program on the search path answers, and the one in the environment is found. -/
theorem find_passes_over : Steady twoKnown pathSecond respondsTwo ∧
    pathTrials pathSecond "cmake3" = [{ command := ["/bin/cmake3"] }] ∧
    respondsTwo ["/bin/cmake3"] = true ∧
    ∃ s, find.runOn twoKnown pathSecond = (.ok (some ["/v/bin/cmake"]), pathSecond.told s) := by
  refine ⟨steady_twoKnown pathSecond, pathTrials_pathSecond, by decide, ?_⟩
  obtain ⟨s, hs⟩ := runOn_findAmong (steady_twoKnown pathSecond) names ""
  rw [Host.told_empty] at hs
  have hfirst : firstOf respondsTwo (names.flatMap (trials pathSecond)) =
      some ["/v/bin/cmake"] := by
    rw [← byName, byName_eq, firstOf_append, firstOf_path, firstOf_append, firstOf_environment]
    rfl
  rw [hfirst] at hs
  exact ⟨s, hs⟩

end CMake

end LintHooks
