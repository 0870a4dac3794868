import LintHooks.Proofs.Hook.Calls
import LintHooks.Proofs.Text.Basic
set_option autoImplicit false

/-!
# Hooks: all files at once

A hook may run its tool once on all files or once on each.  A tool that puts out for several files
what it puts out for each, one after the other, does not thereby get the same verdict.  An exit
status is a matter of each file, and so are the hooks that go by it alone.  But two hooks read what
the tool has written, and they read it as a whole.  One phrase about a correct file keeps
include-what-you-use from finding anything; and for clang-tidy the words of one file on standard
output and the count of errors that another one leaves on standard error make a failure that is
neither's own.

The main result is `runTool_allAtOnce`, with what becomes of the verdict for each hook.  `Joins`
says how the outputs belong together, and for every kind of verdict there is a lemma on joined
outputs (`Joins.failed_eq_any`, `Joins.clangTidy_failed_iff`, `Joins.includeWhatYouUse_failed_iff`),
which looks for the phrases in the whole and in its parts.  `Answers` says that the tool can be run
at all, and then the result of a run is the verdict on its groups (`runOn_runTool`).  The two
verdicts that change are shown in `runTool_allAtOnce_differs`.
-/

namespace LintHooks

/-! ## Reading joined texts -/

namespace Text

/-- A text stands as a whole in the texts that it is joined with. -/
theorem part_of_join {parts : List String} {part : String} (h : part ∈ parts) :
    part.toList <:+: (String.join parts).toList := by
  rw [String.toList_join, List.flatMap_def]
  exact List.infix_of_mem_flatten (List.mem_map_of_mem h)

theorem join_eq_empty_iff {parts : List String} :
    String.join parts = "" ↔ ∀ part ∈ parts, part = "" := by
  rw [← String.toList_eq_nil_iff, String.toList_join, List.flatMap_eq_nil_iff]
  exact forall₂_congr fun part _ => String.toList_eq_nil_iff

end Text

namespace Hook

/-- The count of errors is a digit or a comma before one of two phrases. -/
theorem countsErrors_iff {s : List Char} : countsErrors s = true ↔
    ∃ c, (Text.isDigit c = true ∨ c = ',') ∧
      (c :: " error generated.".toList <:+: s ∨ c :: " errors generated.".toList <:+: s) := by
  induction s with
  | nil => simp [countsErrors]
  | cons d s ih =>
    rw [countsErrors, Bool.or_eq_true, ih]
    simp only [Bool.and_eq_true, Bool.or_eq_true, decide_eq_true_eq, Text.isSome_after?_iff,
      List.infix_cons_iff, List.cons_prefix_cons]
    constructor
    · rintro (⟨hd, hp | hp⟩ | ⟨c, hc, hp | hp⟩)
      · exact ⟨d, hd, .inl (.inl ⟨rfl, hp⟩)⟩
      · exact ⟨d, hd, .inr (.inl ⟨rfl, hp⟩)⟩
      · exact ⟨c, hc, .inl (.inr hp)⟩
      · exact ⟨c, hc, .inr (.inr hp)⟩
    · rintro ⟨c, hc, (⟨rfl, hp⟩ | hp) | (⟨rfl, hp⟩ | hp)⟩
      · exact .inl ⟨hc, .inl hp⟩
      · exact .inr ⟨c, hc, .inl hp⟩
      · exact .inl ⟨hc, .inr hp⟩
      · exact .inr ⟨c, hc, .inr hp⟩

theorem countsErrors_mono {s t : List Char} (h : s <:+: t) (hs : countsErrors s = true) :
    countsErrors t = true := by
  obtain ⟨c, hc, hp⟩ := countsErrors_iff.1 hs
  exact countsErrors_iff.2 ⟨c, hc, hp.imp (·.trans h) (·.trans h)⟩

/-! ## Verdicts on joined outputs -/

/-- What a tool puts out for several files is what it puts out for each of them, one after the
other, and it succeeds where it succeeds on each. -/
structure Joins (out : List String → ProcessOutput) (files : List String) : Prop where
  stdout : (out files).stdout = String.join (files.map fun file => (out [file]).stdout)
  stderr : (out files).stderr = String.join (files.map fun file => (out [file]).stderr)
  success : (out files).success = files.all fun file => (out [file]).success

variable {hook : Hook} {out : List String → ProcessOutput} {files : List String}

theorem Joins.stdout_part (h : Joins out files) {file : String} (hf : file ∈ files) :
    (out [file]).stdout.toList <:+: (out files).stdout.toList := by
  rw [h.stdout]
  exact Text.part_of_join (List.mem_map_of_mem hf)

theorem Joins.stderr_part (h : Joins out files) {file : String} (hf : file ∈ files) :
    (out [file]).stderr.toList <:+: (out files).stderr.toList := by
  rw [h.stderr]
  exact Text.part_of_join (List.mem_map_of_mem hf)

theorem Joins.stdout_ne_iff (h : Joins out files) :
    (out files).stdout ≠ "" ↔ ∃ file ∈ files, (out [file]).stdout ≠ "" := by
  rw [h.stdout, Ne, Text.join_eq_empty_iff]
  simp

theorem Joins.success_eq_false_iff (h : Joins out files) :
    (out files).success = false ↔ ∃ file ∈ files, (out [file]).success = false := by
  rw [h.success]
  simp

/-- The hooks that go by the exit status. -/
theorem Joins.failed_eq_any (h : Joins out files) (ht : hook ≠ .clangTidy)
    (hi : hook ≠ .includeWhatYouUse) :
    hook.failed (out files) = files.any fun file => hook.failed (out [file]) := by
  have hfailed : ∀ o, hook.failed o = !o.success := by
    intro o
    cases hook with
    | clangTidy => exact absurd rfl ht
    | includeWhatYouUse => exact absurd rfl hi
    | _ => rfl
  simp only [hfailed, h.success, List.not_all_eq_any_not]

theorem clangTidy_failed_iff (o : ProcessOutput) : Hook.clangTidy.failed o = true ↔
    o.success = false ∨ o.stdout ≠ "" ∧ countsErrors o.stderr.toList = true := by
  simp [failed]

theorem includeWhatYouUse_failed_iff (o : ProcessOutput) :
    Hook.includeWhatYouUse.failed o = true ↔
      Text.occurs correctIncludes.toList o.stdout.toList = false ∧ o.stdout ≠ "" := by
  simp [failed]

theorem Joins.clangTidy_failed_iff (h : Joins out files) :
    Hook.clangTidy.failed (out files) = true ↔
      (files.any fun file => Hook.clangTidy.failed (out [file])) = true ∨
        (out files).stdout ≠ "" ∧ countsErrors (out files).stderr.toList = true := by
  rw [Hook.clangTidy_failed_iff, h.success_eq_false_iff, List.any_eq_true]
  constructor
  · rintro (⟨file, hf, hs⟩ | hread)
    · exact .inl ⟨file, hf, (Hook.clangTidy_failed_iff _).2 (.inl hs)⟩
    · exact .inr hread
  · rintro (⟨file, hf, hfailed⟩ | hread)
    · rcases (Hook.clangTidy_failed_iff _).1 hfailed with hs | ⟨hout, hcount⟩
      · exact .inl ⟨file, hf, hs⟩
      · exact .inr ⟨h.stdout_ne_iff.2 ⟨file, hf, hout⟩,
          countsErrors_mono (h.stderr_part hf) hcount⟩
    · exact .inr hread

theorem Joins.includeWhatYouUse_failed_iff (h : Joins out files) :
    Hook.includeWhatYouUse.failed (out files) = true ↔
      (files.any fun file => Hook.includeWhatYouUse.failed (out [file])) = true ∧
        Text.occurs correctIncludes.toList (out files).stdout.toList = false := by
  rw [Hook.includeWhatYouUse_failed_iff, h.stdout_ne_iff, List.any_eq_true]
  constructor
  · rintro ⟨hphrase, file, hf, hout⟩
    have hown : Text.occurs correctIncludes.toList (out [file]).stdout.toList = false := by
      by_contra hoccurs
      have hwhole := Text.occurs_mono (h.stdout_part hf) (Bool.not_eq_false _ ▸ hoccurs)
      rw [hphrase] at hwhole
      cases hwhole
    exact ⟨⟨file, hf, (Hook.includeWhatYouUse_failed_iff _).2 ⟨hown, hout⟩⟩, hphrase⟩
  · rintro ⟨⟨file, hf, hfailed⟩, hphrase⟩
    exact ⟨hphrase, file, hf, ((Hook.includeWhatYouUse_failed_iff _).1 hfailed).2⟩

end Hook

/-! ## Running the tool -/

namespace Runner

/-- On all hosts of a kind the tool can be run on some groups of files, what it puts out depends on
the group alone, and neither its runs nor what is noted of them lead out of the kind. -/
structure Answers (hook : Hook) (r : Runner) (launcher : Launcher) (kind : Host → Prop)
    (out : List String → ProcessOutput) (batches : List (List String)) : Prop where
  told : ∀ h, kind h → ∀ s, kind (h.told s)
  output : ∀ batch ∈ batches, ∀ h, kind h →
    (launcher (r.launchOn hook batch) h).1 = .ok (out batch)
  stays : ∀ batch ∈ batches, ∀ h, kind h → kind (launcher (r.launchOn hook batch) h).2

variable {hook : Hook} {r : Runner} {launcher : Launcher} {kind : Host → Prop}
  {out : List String → ProcessOutput} {batches : List (List String)}

theorem Answers.subset (ha : Answers hook r launcher kind out batches)
    {part : List (List String)} (hsub : part ⊆ batches) :
    Answers hook r launcher kind out part where
  told := ha.told
  output batch hb := ha.output batch (hsub hb)
  stays batch hb := ha.stays batch (hsub hb)

theorem Answers.configured (ha : Answers hook r launcher kind out batches) (settings : Settings) :
    Answers hook { r with settings } launcher kind out batches :=
  ⟨ha.told, ha.output, ha.stays⟩

/-- A tool that answers can be run on all the groups, one after the other. -/
theorem Answers.ran (ha : Answers hook r launcher kind out batches) (h : Host) (hk : kind h) :
    ∃ after, Launch.Ran launcher h (batches.map (r.launchOn hook)) (batches.map out) after := by
  induction batches generalizing h with
  | nil => exact ⟨h, .nil h⟩
  | cons batch batches ih =>
    have hstays := ha.stays batch List.mem_cons_self h hk
    obtain ⟨after, hrest⟩ := ih (ha.subset (List.subset_cons_self _ _)) _ (ha.told _ hstays _)
    exact ⟨after, .cons (ha.output batch List.mem_cons_self h hk) hrest⟩

/-- The result of a hook's runs is whether the verdict on any of them is bad. -/
theorem runOn_runTool (ha : Answers hook r launcher kind out r.batches) (h : Host) (hk : kind h) :
    ((runTool hook).runOn r launcher h).1.1 = .ok ((r.batches.map out).any hook.failed) := by
  obtain ⟨after, hran⟩ := ha.ran h hk
  rw [runOn_runTool_ran hran]

/-! ## One run or many -/

/-- The groups of files that a hook may have its tool run on. -/
def allBatches (r : Runner) : List (List String) := r.files :: r.files.map fun file => [file]

theorem batches_subset_allBatches : r.batches ⊆ r.allBatches := by
  intro batch hb
  rw [batches] at hb
  split at hb
  · cases hb
  · split at hb
    · cases List.mem_singleton.1 hb
      exact List.mem_cons_self
    · exact List.mem_cons_of_mem _ hb

theorem any_failed_apart (hflag : r.settings.flag .allAtOnce = false) :
    (r.batches.map out).any hook.failed = r.files.any fun file => hook.failed (out [file]) := by
  rw [batches_apart hflag, List.map_map, List.any_map]
  rfl

/-- Nothing is found where nothing is put out for no file at all. -/
theorem any_failed_together {r : Runner} (hj : Hook.Joins out r.files)
    (hflag : r.settings.flag .allAtOnce = true) :
    (r.batches.map out).any hook.failed = hook.failed (out r.files) := by
  rw [batches_together hflag]
  split
  · next hempty =>
    have hnil : r.files = [] := List.isEmpty_iff.1 hempty
    rw [hnil] at hj ⊢
    have hout : (out []).stdout = "" := hj.stdout
    have hsuccess : (out []).success = true := hj.success
    cases hook <;> simp [Hook.failed, hout, hsuccess]
  · simp

/-- What becomes of a hook's verdict when its tool, whose outputs can be joined, is run on all files
at once.  The hooks that go by the exit status keep it.  clang-tidy never loses one, and may
get one from words on standard output and a count of errors that belong to different files.
include-what-you-use never gets one, and loses it to the phrase about correct includes. -/
theorem runTool_allAtOnce (hook : Hook) (r : Runner) (settings : Settings) (launcher : Launcher)
    (kind : Host → Prop) (out : List String → ProcessOutput) (h : Host) (hk : kind h)
    (ha : Answers hook r launcher kind out r.allBatches) (hj : Hook.Joins out r.files)
    (hapart : r.settings.flag .allAtOnce = false)
    (htogether : settings.flag .allAtOnce = true) :
    ∃ apart together,
      ((runTool hook).runOn r launcher h).1.1 = .ok apart ∧
      ((runTool hook).runOn { r with settings } launcher h).1.1 = .ok together ∧
      (apart = true ↔ ∃ file ∈ r.files, hook.failed (out [file]) = true) ∧
      (hook ≠ .clangTidy → hook ≠ .includeWhatYouUse → together = apart) ∧
      (hook = .clangTidy → (together = true ↔ apart = true ∨
        (out r.files).stdout ≠ "" ∧ Hook.countsErrors (out r.files).stderr.toList = true)) ∧
      (hook = .includeWhatYouUse → (together = true ↔ apart = true ∧
        Text.occurs Hook.correctIncludes.toList (out r.files).stdout.toList = false)) := by
  have hone : ((runTool hook).runOn r launcher h).1.1 =
      .ok (r.files.any fun file => hook.failed (out [file])) := by
    rw [runOn_runTool (ha.subset batches_subset_allBatches) h hk, any_failed_apart hapart]
  have hall : ((runTool hook).runOn { r with settings } launcher h).1.1 =
      .ok (hook.failed (out r.files)) := by
    have hsub : Answers hook { r with settings } launcher kind out (batches { r with settings }) :=
      (ha.configured settings).subset batches_subset_allBatches
    have hfiles : Hook.Joins out (files { r with settings }) := hj
    rw [runOn_runTool hsub h hk, any_failed_together hfiles htogether]
  refine ⟨_, _, hone, hall, List.any_eq_true, hj.failed_eq_any, ?_, ?_⟩
  · rintro rfl
    exact hj.clangTidy_failed_iff
  · rintro rfl
    exact hj.includeWhatYouUse_failed_iff

/-! ## Verdicts that change -/

/-- What a tool puts out that has its say about every one of its files. -/
def joined (say : String → ProcessOutput) (files : List String) : ProcessOutput where
  stdout := String.join (files.map fun file => (say file).stdout)
  stderr := String.join (files.map fun file => (say file).stderr)
  exitCode := if files.all fun file => (say file).success then 0 else 1

/-- A tool that has its say about every one of its arguments and leaves the host alone. -/
def speaking (say : String → ProcessOutput) : Launcher := fun l h => (.ok (joined say l.args), h)

/-- A runner with nothing but files for its tool. -/
def bare (files : List String) : Runner where
  tool := "/bin/tool"
  toolArgs := []
  files := files
  ddash := []
  settings := {}
  project := default

variable {say : String → ProcessOutput} {files : List String}

theorem joins_joined : Hook.Joins (joined say) files where
  stdout := by simp [joined]
  stderr := by simp [joined]
  success := by
    have hsuccess (files : List String) :
        (joined say files).success = files.all fun file => (say file).success := by
      rw [joined, ProcessOutput.success]
      cases files.all fun file => (say file).success <;> rfl
    simp [hsuccess]

theorem answers_speaking :
    Answers hook (bare files) (speaking say) (fun _ => True) (joined say) batches where
  told _ _ _ := trivial
  output batch _ h _ := by
    have hargs : argsFor hook (bare files) batch = batch := by
      rw [argsFor, Hook.commandLine]
      simp [bare, Hook.appendDdash]
    rw [speaking, launchOn, hargs]
  stays _ _ _ _ := trivial

/-- One file has to be changed, the other one is correct. -/
def oneCorrect (file : String) : ProcessOutput :=
  if file = "a.c" then { stdout := "a.c should add these lines:\n" }
  else { stdout := "(b.c has correct #includes/fwd-decls)\n" }

/-- There are words about one file, and errors have been counted for the other one. -/
def oneCounted (file : String) : ProcessOutput :=
  if file = "a.c" then { stdout := "a.c:1:1: warning: unused\n" }
  else { stderr := "1 error generated.\n" }

theorem runTool_allAtOnce_differs :
    Hook.Joins (joined oneCorrect) ["a.c", "b.c"] ∧
    Answers .includeWhatYouUse (bare ["a.c", "b.c"]) (speaking oneCorrect) (fun _ => True)
      (joined oneCorrect) (bare ["a.c", "b.c"]).allBatches ∧
    ((runTool .includeWhatYouUse).runOn (bare ["a.c", "b.c"]) (speaking oneCorrect) {}).1.1
      = .ok true ∧
    ((runTool .includeWhatYouUse).runOn
      { bare ["a.c", "b.c"] with settings := ({} : Settings).setFlag .allAtOnce (some true) }
      (speaking oneCorrect) {}).1.1 = .ok false ∧
    Hook.Joins (joined oneCounted) ["a.c", "b.c"] ∧
    Answers .clangTidy (bare ["a.c", "b.c"]) (speaking oneCounted) (fun _ => True)
      (joined oneCounted) (bare ["a.c", "b.c"]).allBatches ∧
    ((runTool .clangTidy).runOn (bare ["a.c", "b.c"]) (speaking oneCounted) {}).1.1
      = .ok false ∧
    ((runTool .clangTidy).runOn
      { bare ["a.c", "b.c"] with settings := ({} : Settings).setFlag .allAtOnce (some true) }
      (speaking oneCounted) {}).1.1 = .ok true := by
  refine ⟨joins_joined, answers_speaking, ?_, ?_, joins_joined, answers_speaking, ?_, ?_⟩
  · rw [runOn_runTool answers_speaking {} trivial]
    decide
  · rw [runOn_runTool (answers_speaking.configured _) {} trivial]
    decide
  · rw [runOn_runTool answers_speaking {} trivial]
    decide
  · rw [runOn_runTool (answers_speaking.configured _) {} trivial]
    decide

theorem runTool_allAtOnce_oneCounted : ∃ apart together,
    ((runTool .clangTidy).runOn (bare ["a.c", "b.c"]) (speaking oneCounted) {}).1.1 = .ok apart ∧
    ((runTool .clangTidy).runOn
      { bare ["a.c", "b.c"] with settings := ({} : Settings).setFlag .allAtOnce (some true) }
      (speaking oneCounted) {}).1.1 = .ok together ∧
    (together = true ↔ apart = true ∨ (joined oneCounted ["a.c", "b.c"]).stdout ≠ "" ∧
      Hook.countsErrors (joined oneCounted ["a.c", "b.c"]).stderr.toList = true) := by
  obtain ⟨apart, together, hapart, htogether, -, -, hread, -⟩ :=
    runTool_allAtOnce .clangTidy (bare ["a.c", "b.c"])
      (({} : Settings).setFlag .allAtOnce (some true)) (speaking oneCounted) (fun _ => True)
      (joined oneCounted) {} trivial answers_speaking joins_joined rfl rfl
  exact ⟨apart, together, hapart, htogether, hread rfl⟩

end Runner

end LintHooks
