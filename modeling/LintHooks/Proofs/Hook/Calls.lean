import LintHooks.Proofs.Hook.Preparing
import Mathlib.Data.List.Nodup
set_option autoImplicit false

/-!
# Hooks: the calls of the tool

A hook that goes through its files calls its tool on one group of them after the other, keeps what
every call has put out as it was put out, and shows at the end what the bad ones among them said.  A
prepared hook names no file twice, so each of its files stands in exactly one group.

The main result is `runTool_calls`.  Running the tool on the groups is described by
`runOn_runBatches`, by induction on the groups, and with what is shown at the end by
`runOn_runTool_ran`.  The groups themselves are a matter of the settings (`batches_apart`,
`batches_together`), and that each file is in one of them follows from the files being `Distinct`,
which is kept while a runner is made ready (`distinct_prepare`).  What a host has seen of the calls
is told by anything that `Records` them, again by induction on the calls (`Records.ran`), and what
they have written themselves is `Captured.ran`.
-/

namespace LintHooks

/-! ## Reports -/

namespace Hook

theorem violations_ends (os : List ProcessOutput) (h : violations os ≠ "") :
    (violations os).toList.getLast? = some '\n' := by
  have hlines : (os.flatMap violationLines).map (fun line => line ++ "\n") ≠ [] := by
    intro hnil
    rw [violations, hnil] at h
    exact h rfl
  rw [violations, ← List.dropLast_concat_getLast hlines, String.toList_join, List.flatMap_append]
  obtain ⟨line, -, hline⟩ := List.mem_map.1 (List.getLast_mem hlines)
  rw [← hline]
  simp

/-- What include-what-you-use is shown to have found: a heading over the lines of all the runs, and
nothing at all where there is no line. -/
def violationBlock (colored : Bool) (os : List ProcessOutput) : String :=
  if violations os = "" then ""
  else Terminal.heading colored .red "Include-What-You-Use violations found" ++ "\n"
    ++ violations os

theorem runOn_report_violations (launcher : Launcher) (failures : List ProcessOutput) (h : Host) :
    (report .includeWhatYouUse failures).runOn launcher h =
      (.ok (), h.told (violationBlock h.colored failures)) := by
  rw [report, violationBlock]
  split
  · exact congrArg _ h.told_empty.symm
  · next hne =>
    rw [Terminal.block, Action.runOn_bind_host, if_pos (violations_ends _ hne),
      Action.runOn_printError, String.append_empty]
    rfl

theorem runOn_report_echo {hook : Hook} (hne : hook ≠ .includeWhatYouUse) (launcher : Launcher)
    (failures : List ProcessOutput) (h : Host) :
    (hook.report failures).runOn launcher h =
      (.ok (), { h with
        stdout := h.stdout ++ String.join (failures.map (·.stdout))
        stderr := h.stderr ++ String.join (failures.map (·.stderr)) }) := by
  have hreport : hook.report failures = failures.forM ProcessOutput.echo := by
    cases hook with
    | includeWhatYouUse => exact absurd rfl hne
    | _ => rfl
  rw [hreport]
  clear hreport
  induction failures generalizing h with
  | nil =>
    show (_, h) = _
    simp
  | cons o failures ih =>
    have hecho : (o.echo).runOn launcher h =
        (.ok (), { h with stdout := h.stdout ++ o.stdout, stderr := h.stderr ++ o.stderr }) := rfl
    rw [List.forM_eq_forM, List.forM_cons, Action.runOn_bind_eq hecho, ← List.forM_eq_forM, ih]
    simp [String.join_cons, String.append_assoc]

/-- Showing what was found never fails. -/
theorem exists_runOn_report (hook : Hook) (launcher : Launcher) (failures : List ProcessOutput)
    (h : Host) : ∃ h', (hook.report failures).runOn launcher h = (.ok (), h') := by
  by_cases hi : hook = .includeWhatYouUse
  · subst hi
    exact ⟨_, runOn_report_violations launcher failures h⟩
  · exact ⟨_, runOn_report_echo hi launcher failures h⟩

theorem stdout_cleaned (hook : Hook) (o : ProcessOutput) : (hook.cleaned o).stdout = o.stdout := by
  cases hook <;> rfl

theorem cleaned_includeWhatYouUse : Hook.includeWhatYouUse.cleaned = id := rfl

end Hook

namespace Runner

/-! ## Running the tool -/

/-- How the tool is run on some files. -/
def launchOn (hook : Hook) (r : Runner) (files : List String) : Launch :=
  ⟨r.tool, r.argsFor hook files, none⟩

variable {hook : Hook} {r : Runner} {launcher : Launcher} {h after : Host}

theorem runOn_execute_args {args : List String} {o : ProcessOutput}
    (ho : (launcher ⟨r.tool, args, none⟩ h).1 = .ok o) :
    (execute args).runOn r launcher h =
      ((.ok o, { r with history := r.history ++ [o] }),
        (launcher ⟨r.tool, args, none⟩ h).2.told
          (Launch.noted (launcher ⟨r.tool, args, none⟩ h).2 ⟨r.tool, args, none⟩ o)) := by
  rw [execute, ActionOn.runOn_bind_get,
    ActionOn.runOn_bind_liftM r (Launch.runOn_run_noted launcher h _ ho), ActionOn.runOn_bind,
    ActionOn.runOn_set]
  rfl

theorem runOn_execute {files : List String} {o : ProcessOutput}
    (ho : (launcher (r.launchOn hook files) h).1 = .ok o) :
    (execute (r.argsFor hook files)).runOn r launcher h =
      ((.ok o, { r with history := r.history ++ [o] }),
        (launcher (r.launchOn hook files) h).2.told
          ((r.launchOn hook files).noted (launcher (r.launchOn hook files) h).2 o)) :=
  runOn_execute_args ho

/-- The runs on all groups give the outputs with a bad verdict, and all outputs are kept. -/
theorem runOn_runBatches {batches : List (List String)} {os : List ProcessOutput}
    (hran : Launch.Ran launcher h (batches.map (r.launchOn hook)) os after) :
    (runBatches hook batches).runOn r launcher h =
      ((.ok ((os.filter hook.failed).map hook.cleaned), { r with history := r.history ++ os }),
        after) := by
  induction batches generalizing r h os with
  | nil =>
    cases hran
    rw [runBatches, ActionOn.runOn_pure, List.append_nil]
    rfl
  | cons batch batches ih =>
    cases hran with
    | @cons _ _ _ _ o os ho hrest =>
      have hrest : Launch.Ran launcher _
          (batches.map (launchOn hook { r with history := r.history ++ [o] })) os after := hrest
      rw [runBatches, ActionOn.runOn_bind_get, ActionOn.runOn_bind, runOn_execute ho]
      dsimp only
      rw [ActionOn.runOn_bind, ih hrest, List.filter_cons, List.append_assoc]
      cases hook.failed o <;> rfl

theorem not_isEmpty_filter {α : Type} (p : α → Bool) (l : List α) :
    (!(l.filter p).isEmpty) = l.any p := by
  induction l with
  | nil => rfl
  | cons a l ih =>
    rw [List.filter_cons, List.any_cons, ← ih]
    cases p a <;> rfl

/-- The result of a hook's runs is whether the verdict on any of them is bad, and the bad ones are
reported at the end. -/
theorem runOn_runTool_ran {os : List ProcessOutput}
    (hran : Launch.Ran launcher h (r.batches.map (r.launchOn hook)) os after) :
    (runTool hook).runOn r launcher h =
      ((.ok (os.any hook.failed), { r with history := r.history ++ os }),
        ((hook.report ((os.filter hook.failed).map hook.cleaned)).runOn launcher after).2) := by
  rw [runTool, ActionOn.runOn_bind_get]
  split
  · next hempty =>
    rw [batches, if_pos hempty] at hran
    cases hran
    have hquiet : ((hook.report []).runOn launcher h).2 = h := by cases hook <;> rfl
    rw [ActionOn.runOn_pure, List.filter_nil, List.map_nil, hquiet, List.append_nil]
    rfl
  · obtain ⟨last, hreport⟩ := hook.exists_runOn_report launcher
      ((os.filter hook.failed).map hook.cleaned) after
    rw [ActionOn.runOn_bind, runOn_runBatches hran]
    dsimp only
    rw [ActionOn.runOn_bind_liftM _ hreport, hreport, ActionOn.runOn_pure, List.isEmpty_map,
      not_isEmpty_filter]

/-! ## Prepared hooks -/

/-- No file is named twice. -/
def Distinct (r : Runner) : Prop := r.files.Nodup

theorem nodup_addFiles (more : List String) {files : List String} (h : files.Nodup) :
    (Hook.addFiles files more).Nodup := by
  induction more generalizing files with
  | nil => exact h
  | cons file more ih =>
    rw [Hook.addFiles_cons]
    exact ih (Hook.nodup_addFile file h)

theorem distinct_ofInvocation (hook : Hook) (i : Invocation) (s : Settings) :
    Action.Yields Distinct (ofInvocation hook i s) := by
  intro launcher h made h' hmade
  obtain ⟨tool, project, -, rfl⟩ := ofInvocation_ok hmade
  exact nodup_addFiles _ List.nodup_nil

/-- Files are only ever added where they are not there yet. -/
theorem distinct_prepare (hook : Hook) : ActionOn.Keeps Distinct (prepare hook) :=
  keeps_prepare hook (fun _ _ hr => hr) fun more _ hr => nodup_addFiles more hr

/-- A runner as it is when a hook comes to run its tool. -/
def Prepared (hook : Hook) (r : Runner) : Prop :=
  ∃ i s launcher h made h₁ h₂, (ofInvocation hook i s).runOn launcher h = (.ok made, h₁) ∧
    (prepare hook).runOn made launcher h₁ = ((.ok (), r), h₂)

theorem Prepared.distinct (hr : Prepared hook r) : r.Distinct := by
  obtain ⟨i, s, launcher, h, made, h₁, h₂, hmade, hprepared⟩ := hr
  have hkept := distinct_prepare hook made launcher h₁
    (distinct_ofInvocation hook i s launcher h made h₁ hmade)
  rw [hprepared] at hkept
  exact hkept

/-! ## Groups of files -/

theorem batches_apart (hflag : r.settings.flag .allAtOnce = false) :
    r.batches = r.files.map fun file => [file] := by
  rw [batches, hflag]
  cases r.files <;> rfl

theorem batches_together (hflag : r.settings.flag .allAtOnce = true) :
    r.batches = if r.files.isEmpty then [] else [r.files] := by
  rw [batches, hflag]
  rfl

/-- The groups together are the files, in their order. -/
theorem flatten_batches (r : Runner) : r.batches.flatten = r.files := by
  cases hflag : r.settings.flag .allAtOnce with
  | true =>
    rw [batches_together hflag]
    cases r.files <;> simp
  | false =>
    rw [batches_apart hflag]
    induction r.files with
    | nil => rfl
    | cons file files ih => rw [List.map_cons, List.flatten_cons, ih, List.singleton_append]

/-- Where no file is named twice, each stands in one group. -/
theorem length_filter_batches (hr : r.Distinct) {file : String} (hf : file ∈ r.files) :
    (r.batches.filter fun batch => file ∈ batch).length = 1 := by
  cases hflag : r.settings.flag .allAtOnce with
  | true =>
    rw [batches_together hflag, if_neg (by simpa using List.ne_nil_of_mem hf)]
    simp [hf]
  | false =>
    have hcount : r.files.count file = 1 := List.count_eq_one_of_mem hr hf
    rw [batches_apart hflag, ← List.countP_eq_length_filter, List.countP_map, ← hcount]
    refine List.countP_congr fun other _ => ?_
    simp only [Function.comp_apply, List.mem_singleton, decide_eq_true_eq, beq_iff_eq]
    exact eq_comm

/-! ## The whole run -/

/-- The arguments of the calls of the tool, in order. -/
def calls (hook : Hook) (r : Runner) : List (List String) := r.batches.map (r.argsFor hook)

/-- A way to tell from a host which calls of a tool it has seen: each call is added to those before
it, and what is written on the streams makes no difference. -/
structure Records (launcher : Launcher) (tool : String) (seen : Host → List (List String)) :
    Prop where
  called : ∀ args h, seen (launcher ⟨tool, args, none⟩ h).2 = seen h ++ [args]
  written : ∀ h stdout stderr, seen { h with stdout, stderr } = seen h

/-- A tool whose own output is captured: its calls write on no stream of the hook, and do not open
the log. -/
structure Captured (launcher : Launcher) (tool : String) : Prop where
  stdout : ∀ args h, (launcher ⟨tool, args, none⟩ h).2.stdout = h.stdout
  stderr : ∀ args h, (launcher ⟨tool, args, none⟩ h).2.stderr = h.stderr
  shows : ∀ args h, (launcher ⟨tool, args, none⟩ h).2.shows .process .debug
    = h.shows .process .debug

theorem Records.told {tool : String} {seen : Host → List (List String)}
    (hs : Records launcher tool seen) (h : Host) (s : String) : seen (h.told s) = seen h :=
  hs.written h h.stdout (h.stderr ++ s)

variable {tool : String} {args : List (List String)} {os : List ProcessOutput}

theorem Records.ran {seen : Host → List (List String)} (hs : Records launcher tool seen)
    (hran : Launch.Ran launcher h (args.map fun a => ⟨tool, a, none⟩) os after) :
    seen after = seen h ++ args := by
  induction args generalizing h os with
  | nil =>
    cases hran
    rw [List.append_nil]
  | cons a args ih =>
    cases hran with
    | cons _ hrest => rw [ih hrest, hs.told, hs.called, List.append_assoc, List.singleton_append]

theorem Captured.ran (hc : Captured launcher tool) (hlog : h.shows .process .debug = false)
    (hran : Launch.Ran launcher h (args.map fun a => ⟨tool, a, none⟩) os after) :
    after.stdout = h.stdout ∧ after.stderr = h.stderr := by
  induction args generalizing h os with
  | nil =>
    cases hran
    exact ⟨rfl, rfl⟩
  | cons a args ih =>
    cases hran with
    | cons _ hrest =>
      have hsilent := (hc.shows a h).trans hlog
      rw [Launch.noted_of_silent hsilent, Host.told_empty] at hrest
      obtain ⟨hout, herr⟩ := ih hsilent hrest
      exact ⟨hout.trans (hc.stdout a h), herr.trans (hc.stderr a h)⟩

/-- A tool that goes by its arguments can be run any number of times. -/
theorem exists_ran {out : List String → ProcessOutput}
    (hout : ∀ args h, (launcher ⟨tool, args, none⟩ h).1 = .ok (out args)) (h : Host)
    (args : List (List String)) :
    ∃ after, Launch.Ran launcher h (args.map fun a => ⟨tool, a, none⟩) (args.map out) after := by
  induction args generalizing h with
  | nil => exact ⟨h, .nil h⟩
  | cons a args ih =>
    obtain ⟨after, hrest⟩ := ih _
    exact ⟨after, .cons (hout a h) hrest⟩

theorem argsFor_eq (hook : Hook) (r : Runner) (batch : List String) :
    r.argsFor hook batch =
      (if hook ∈ [.clangTidy, .includeWhatYouUse, .lizard] then batch ++ r.toolArgs
        else r.toolArgs ++ batch) ++ if r.ddash = [] then [] else "--" :: r.ddash := by
  rw [argsFor, Hook.commandLine, Hook.appendDdash]
  cases r.ddash with
  | nil => cases hook <;> simp [Hook.filesFirst]
  | cons arg ddash => cases hook <;> simp [Hook.filesFirst]

/-- The whole run of a hook's tool, whatever it puts out for its arguments.  There is no call
without files, one call with all of them, or one with each, and each file of a prepared hook stands
in one call; every call has the arguments of the tool in the order that the tool wants, and what
goes behind a separator if there is anything.  All outputs are kept as they were put out.  The
result is whether the verdict on any of them is bad, and only the bad ones are shown. -/
theorem runTool_calls (hook : Hook) (r : Runner) (launcher : Launcher)
    (out : List String → ProcessOutput) (h : Host)
    (hout : ∀ args h, (launcher ⟨r.tool, args, none⟩ h).1 = .ok (out args)) :
    (r.files = [] → r.batches = []) ∧
    (r.files ≠ [] → r.settings.flag .allAtOnce = true → r.batches = [r.files]) ∧
    (r.settings.flag .allAtOnce = false → r.batches = r.files.map fun file => [file]) ∧
    r.batches.flatten = r.files ∧
    (Prepared hook r → ∀ file ∈ r.files,
      (r.batches.filter fun batch => file ∈ batch).length = 1) ∧
    (∀ batch, r.argsFor hook batch =
      (if hook ∈ [.clangTidy, .includeWhatYouUse, .lizard] then batch ++ r.toolArgs
        else r.toolArgs ++ batch) ++ if r.ddash = [] then [] else "--" :: r.ddash) ∧
    ∃ outputs failing ran after,
      outputs = (r.calls hook).map out ∧ failing = outputs.filter hook.failed ∧
      (runTool hook).runOn r launcher h =
        ((.ok (outputs.any hook.failed), { r with history := r.history ++ outputs }), after) ∧
      Launch.Ran launcher h ((r.calls hook).map fun args => ⟨r.tool, args, none⟩) outputs ran ∧
      (∀ seen, Records launcher r.tool seen → seen after = seen h ++ r.calls hook) ∧
      (Captured launcher r.tool → h.shows .process .debug = false →
        ran.stdout = h.stdout ∧ ran.stderr = h.stderr) ∧
      (hook ≠ .includeWhatYouUse → after = { ran with
        stdout := ran.stdout ++ String.join (failing.map fun o => o.stdout)
        stderr := ran.stderr ++ String.join (failing.map fun o => (hook.cleaned o).stderr) }) ∧
      (hook = .includeWhatYouUse → after = { ran with
        stderr := ran.stderr ++ Hook.violationBlock ran.colored failing }) := by
  obtain ⟨ran, hran⟩ := exists_ran hout h (r.calls hook)
  have hlaunches : (r.calls hook).map (fun args => (⟨r.tool, args, none⟩ : Launch)) =
      r.batches.map (r.launchOn hook) := List.map_map
  have hrun := runOn_runTool_ran (hlaunches ▸ hran)
  refine ⟨?_, ?_, batches_apart, flatten_batches r,
    fun hr file => length_filter_batches hr.distinct, argsFor_eq hook r, _, _, ran, _, rfl, rfl,
    hrun, hran, fun seen hs => ?_, fun hc hlog => hc.ran hlog hran, fun hne => ?_, fun hi => ?_⟩
  · intro hnil
    rw [batches, hnil]
    rfl
  · intro hne hflag
    rw [batches_together hflag, if_neg (by simpa using hne)]
  · rw [← hs.ran hran]
    by_cases hi : hook = .includeWhatYouUse
    · subst hi
      rw [Hook.runOn_report_violations]
      exact hs.told _ _
    · rw [Hook.runOn_report_echo hi]
      exact hs.written _ _ _
  · rw [Hook.runOn_report_echo hne, List.map_map, List.map_map]
    simp only [Function.comp_def, Hook.stdout_cleaned]
  · subst hi
    rw [Hook.runOn_report_violations, Hook.cleaned_includeWhatYouUse, List.map_id]
    rfl

/-- A tool that leaves a trace of each of its calls among the files of the host. -/
def recording (out : List String → ProcessOutput) : Launcher := fun l h =>
  (.ok (out l.args), { h with files := ⟨(l.args, .directory) :: h.files.entries⟩ })

theorem records_recording (out : List String → ProcessOutput) (tool : String) :
    Records (recording out) tool fun h => (h.files.entries.map Prod.fst).reverse where
  called _ _ := List.reverse_cons
  written _ _ _ := rfl

/-- Two files for cppcheck. -/
def twoFiles : Runner where
  tool := "/bin/cppcheck"
  toolArgs := ["-q"]
  files := ["a.c", "b.c"]
  ddash := []
  settings := {}
  project := default

/-- There is noise about both files and an error in the second one. -/
def secondFails (args : List String) : ProcessOutput :=
  if args = ["-q", "b.c"] then
    { stdout := "b.c\n"
      stderr := "nofile: Cppcheck cannot find all the include files\nb.c:1: error\n"
      exitCode := 1 }
  else { stdout := "a.c\n", stderr := "nofile: Cppcheck cannot find all the include files\n" }

theorem runTool_calls_twoFiles :
    (∀ args h, (recording secondFails ⟨twoFiles.tool, args, none⟩ h).1 = .ok (secondFails args)) ∧
    ∃ after, (runTool .cppcheck).runOn twoFiles (recording secondFails) {} =
        ((.ok true, { twoFiles with
          history := [secondFails ["-q", "a.c"], secondFails ["-q", "b.c"]] }), after) ∧
      (after.files.entries.map Prod.fst).reverse = [["-q", "a.c"], ["-q", "b.c"]] ∧
      after.stdout = "b.c\n" ∧ after.stderr = "b.c:1: error\n" := by
  refine ⟨fun _ _ => rfl, ?_⟩
  obtain ⟨-, -, -, -, -, -, outputs, failing, ran, after, rfl, rfl, hrun, -, hseen, hquiet, hecho,
      -⟩ :=
    runTool_calls .cppcheck twoFiles (recording secondFails) secondFails {} fun _ _ => rfl
  obtain ⟨hstdout, hstderr⟩ := hquiet ⟨fun _ _ => rfl, fun _ _ => rfl, fun _ _ => rfl⟩ rfl
  have hcalls : twoFiles.calls .cppcheck = [["-q", "a.c"], ["-q", "b.c"]] := rfl
  have hafter := hecho (by decide)
  rw [hcalls] at hrun hafter
  refine ⟨after, hrun, hseen _ (records_recording _ _), ?_, ?_⟩
  · rw [hafter]
    dsimp only
    rw [hstdout]
    decide
  · rw [hafter]
    dsimp only
    rw [hstderr]
    decide

end Runner

end LintHooks
