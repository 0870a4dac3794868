import LintHooks.Hook.Formatting
import LintHooks.Proofs.FileSystem.Names
import LintHooks.Proofs.Hook.Calls
import LintHooks.Proofs.Text.Utf8
set_option autoImplicit false

/-!
# Hooks: checking a format, file by file

The files are visited one after the other, and what a visit does is there when the next one begins:
the tool has been called once or twice, and a file may have been formatted in place.  The visits end
with the last file, or with the first one that cannot be read or for which the tool cannot be
started.  Only in the first case the differences are shown that the visits have found.

The main result is `run_shown`.  What becomes of one file is `runOn_checkFile`, which puts together
a lemma for each answer of the tool: a check that fails (`runOn_checkFile_failing`), one that finds
the text of the file (`runOn_checkFile_settled`), and one that finds another text
(`runOn_checkFile_differing`).  Either the file has been `Visited`, or it `Stops` the visits.  By
induction on the files this gives `runOn_checkFiles`, and with what is shown at the end `runOn_run`.
As a tool is captured, standard output has nothing but what is copied to it (`stdout_visits`,
`stdout_stops`).  `run_unshown` is a run that stops after it has changed a file.
-/

namespace LintHooks

/-- A host on which outputs of programs have been copied to the streams. -/
def Host.echoed (h : Host) (os : List ProcessOutput) : Host :=
  { h with
    stdout := h.stdout ++ String.join (os.map ProcessOutput.stdout)
    stderr := h.stderr ++ String.join (os.map ProcessOutput.stderr) }

namespace Formatting

/-! ## Visits -/

/-- What has been done about one file. -/
structure Visit where
  file : String
  /-- The text of the file as it has been read. -/
  text : String
  /-- What the tool has said when it was asked how the file should look. -/
  check : ProcessOutput
  /-- What the tool has said when it was asked to format the file in place, if it was. -/
  rewriting : Option ProcessOutput
  deriving DecidableEq, Repr, Inhabited

namespace Visit

/-- Whether the file should look different. -/
def differs (v : Visit) : Bool := v.check.success && v.check.stdout != v.text

/-- Whether the file is a finding. -/
def finding (v : Visit) : Bool := !v.check.success || v.check.stdout != v.text

theorem finding_eq (v : Visit) : v.finding = (!v.check.success || v.differs) := by
  rw [finding, differs]
  cases v.check.success <;> rfl

/-- The outputs of the calls of the tool. -/
def outputs (v : Visit) : List ProcessOutput := v.check :: v.rewriting.toList

/-- The outputs that are copied to the streams at once. -/
def echoes (v : Visit) : List ProcessOutput := v.outputs.filter fun o => !o.success

/-- The arguments of the calls of the tool. -/
def calls (m : Mode) (v : Visit) : List (List String) :=
  (m.args ++ [v.file]) ::
    if v.rewriting.isSome then [inPlace :: m.args ++ [v.file]] else []

/-- What is to be shown of the difference in the end. -/
def diff (m : Mode) (v : Visit) : String :=
  if m.showDiff && v.differs then Hook.formatDiff v.file v.text v.check.stdout else ""

end Visit

variable {m : Mode} {launcher : Launcher} {tool : String}

/-- A visit from one host to the next. -/
structure Visited (m : Mode) (launcher : Launcher) (tool : String) (h : Host) (v : Visit)
    (h' : Host) : Prop where
  read : ∃ bytes, h.files.read h.workDir v.file = .ok bytes ∧ v.text = Text.decodeLossy bytes
  rewrites : v.rewriting.isSome = (m.changesFiles && v.differs)
  ran : ∃ last s, Launch.Ran launcher h ((v.calls m).map fun args => ⟨tool, args, none⟩) v.outputs
    last ∧ h' = (last.echoed v.echoes).told s

/-- Visits that follow each other. -/
inductive Visits (m : Mode) (launcher : Launcher) (tool : String) :
    Host → List Visit → Host → Prop where
  | nil (h : Host) : Visits m launcher tool h [] h
  | cons {h h₁ h₂ : Host} {v : Visit} {vs : List Visit} : Visited m launcher tool h v h₁ →
    Visits m launcher tool h₁ vs h₂ → Visits m launcher tool h (v :: vs) h₂

/-- How a file can put an end to the visits: it cannot be read, or the tool cannot be started to
check it, or to format it in place when it has been checked and should look different.  What the
tool has said until then is kept. -/
inductive Stops (m : Mode) (launcher : Launcher) (tool : String) (h : Host) (file : String) :
    List ProcessOutput → Failure → Host → Prop where
  | unreadable {e : OsError} : h.files.read h.workDir file = .error e →
    Stops m launcher tool h file [] (.readingFile file e) h
  | unchecked {bytes : ByteArray} {e : OsError} : h.files.read h.workDir file = .ok bytes →
    (launcher ⟨tool, m.args ++ [file], none⟩ h).1 = .error e →
    Stops m launcher tool h file [] (.executing tool e)
      (launcher ⟨tool, m.args ++ [file], none⟩ h).2
  | unchanged {bytes : ByteArray} {o : ProcessOutput} {last : Host} {e : OsError} :
    h.files.read h.workDir file = .ok bytes →
    Launch.Ran launcher h [⟨tool, m.args ++ [file], none⟩] [o] last → o.success = true →
    o.stdout ≠ Text.decodeLossy bytes → m.changesFiles = true →
    (launcher ⟨tool, inPlace :: m.args ++ [file], none⟩ last).1 = .error e →
    Stops m launcher tool h file [o] (.executing tool e)
      (launcher ⟨tool, inPlace :: m.args ++ [file], none⟩ last).2

/-- A tally with one more visit. -/
def Tally.add (m : Mode) (t : Tally) (v : Visit) : Tally :=
  ⟨t.failed || v.finding, t.diffs ++ v.diff m⟩

/-! ## One file -/

section Steps

variable (launcher) (h : Host) (r : Runner) (file : String)

theorem runOn_readLossy_ok {bytes : ByteArray} (hread : h.files.read h.workDir file = .ok bytes) :
    (readLossy file).runOn launcher h = (.ok (Text.decodeLossy bytes), h) := by
  rw [readLossy, Action.runOn_bind_host, hread]
  rfl

theorem runOn_readLossy_error {e : OsError} (hread : h.files.read h.workDir file = .error e) :
    (readLossy file).runOn launcher h = (.error (.readingFile file e), h) := by
  rw [readLossy, Action.runOn_bind_host, hread]
  rfl

theorem runOn_echo (o : ProcessOutput) : o.echo.runOn launcher h = (.ok (), h.echoed [o]) := by
  have hjoin : ∀ s, String.join [s] = s := by
    intro s
    rw [String.join_cons, String.join_nil, String.append_empty]
  rw [Host.echoed, List.map_singleton, List.map_singleton, hjoin, hjoin]
  rfl

theorem echoed_nil : h.echoed [] = h := by
  rw [Host.echoed, List.map_nil, List.map_nil, String.join_nil, String.append_empty,
    String.append_empty]

theorem runOn_execute_error {args : List String} {e : OsError}
    (he : (launcher ⟨r.tool, args, none⟩ h).1 = .error e) :
    (Runner.execute args).runOn r launcher h =
      ((.error (.executing r.tool e), r), (launcher ⟨r.tool, args, none⟩ h).2) := by
  have hlaunch : (Action.launch ⟨r.tool, args, none⟩).runOn launcher h =
      (.ok (.error e), (launcher ⟨r.tool, args, none⟩ h).2) := by
    rw [← he]
    rfl
  have hrun : (Launch.run ⟨r.tool, args, none⟩).runOn launcher h =
      (.error (.executing r.tool e), (launcher ⟨r.tool, args, none⟩ h).2) := by
    rw [Launch.run, Action.runOn_bind_eq hlaunch]
    rfl
  rw [Runner.execute, ActionOn.runOn_bind_get, ActionOn.runOn_bind, ActionOn.runOn_liftM, hrun]

variable {launcher h r file}

theorem runOn_execute_ran {args : List String} {o : ProcessOutput} {last : Host}
    (hran : Launch.Ran launcher h [⟨r.tool, args, none⟩] [o] last) :
    (Runner.execute args).runOn r launcher h =
      ((.ok o, { r with history := r.history ++ [o] }), last) := by
  cases hran with
  | cons ho hrest =>
    cases hrest
    exact Runner.runOn_execute_args ho

/-- Formatting in place is one more call, and what it says when it fails is copied to the
streams. -/
theorem runOn_formatInPlace {o : ProcessOutput} {last : Host}
    (hran : Launch.Ran launcher h [⟨r.tool, inPlace :: m.args ++ [file], none⟩] [o] last) :
    ∃ s, (formatInPlace m file).runOn r launcher h =
      ((.ok (), { r with history := r.history ++ [o] }),
        (last.echoed ([o].filter fun o => !o.success)).told s) := by
  obtain ⟨s, hs⟩ := Action.runOn_debug launcher
    (last.echoed ([o].filter fun o => !o.success)) .format ("reformatted " ++ file)
  refine ⟨s, ?_⟩
  rw [formatInPlace, ActionOn.runOn_bind, runOn_execute_ran hran]
  dsimp only
  cases ho : o.success with
  | false =>
    have hechoed : [o].filter (fun o => !o.success) = [o] :=
      List.filter_cons_of_pos (by rw [ho]; rfl)
    rw [hechoed] at hs ⊢
    rw [if_pos Bool.not_false, ActionOn.runOn_bind_liftM _ (runOn_echo launcher last o),
      ActionOn.runOn_liftM, hs]
  | true =>
    have hsilent : [o].filter (fun o => !o.success) = [] :=
      List.filter_cons_of_neg (by rw [ho]; exact Bool.false_ne_true)
    rw [hsilent, echoed_nil] at hs ⊢
    rw [if_neg (by decide), ActionOn.runOn_liftM, hs]

end Steps

section Checks

variable {h last : Host} {r : Runner} {file : String} {bytes : ByteArray} {o : ProcessOutput}

/-- A visit with one call. -/
theorem Visited.of_check (hread : h.files.read h.workDir file = .ok bytes)
    (hran : Launch.Ran launcher h [⟨tool, m.args ++ [file], none⟩] [o] last)
    (hkept : (m.changesFiles && Visit.differs ⟨file, Text.decodeLossy bytes, o, none⟩) = false) :
    Visited m launcher tool h ⟨file, Text.decodeLossy bytes, o, none⟩
      (last.echoed ([o].filter fun o => !o.success)) where
  read := ⟨bytes, hread, rfl⟩
  rewrites := hkept.symm
  ran := ⟨last, "", hran, (Host.told_empty _).symm⟩

/-- When the file has been read and the tool has answered, the answer decides. -/
theorem runOn_checkFile_ran (t : Tally) (hread : h.files.read h.workDir file = .ok bytes)
    (hran : Launch.Ran launcher h [⟨r.tool, m.args ++ [file], none⟩] [o] last) :
    (checkFile m t file).runOn r launcher h =
      (if !o.success then do
        o.echo
        pure { t with failed := true }
      else if o.stdout = Text.decodeLossy bytes then pure t
      else do
        if m.changesFiles then formatInPlace m file
        pure ⟨true, t.diffs ++
          if m.showDiff then Hook.formatDiff file (Text.decodeLossy bytes) o.stdout else ""⟩ :
        ActionOn Runner Tally).runOn { r with history := r.history ++ [o] } launcher last := by
  unfold checkFile
  rw [ActionOn.runOn_bind_liftM r (runOn_readLossy_ok launcher h file hread), ActionOn.runOn_bind,
    runOn_execute_ran hran]

/-- Where the check fails, what it says is copied to the streams. -/
theorem runOn_checkFile_failing (t : Tally) (hread : h.files.read h.workDir file = .ok bytes)
    (hran : Launch.Ran launcher h [⟨r.tool, m.args ++ [file], none⟩] [o] last)
    (ho : o.success = false) : ∃ v h', v.file = file ∧ Visited m launcher r.tool h v h' ∧
      (checkFile m t file).runOn r launcher h =
        ((.ok (t.add m v), { r with history := r.history ++ v.outputs }), h') := by
  have hdiffers : Visit.differs ⟨file, Text.decodeLossy bytes, o, none⟩ = false := by
    rw [Visit.differs, ho, Bool.false_and]
  have hvisit := Visited.of_check (m := m) hread hran (by rw [hdiffers, Bool.and_false])
  rw [List.filter_cons_of_pos (by rw [ho]; rfl), List.filter_nil] at hvisit
  refine ⟨_, _, rfl, hvisit, ?_⟩
  rw [runOn_checkFile_ran t hread hran, ho, if_pos Bool.not_false,
    ActionOn.runOn_bind_liftM _ (runOn_echo launcher last o)]
  simp [Tally.add, Visit.finding_eq, Visit.diff, Visit.outputs, hdiffers, ho]

/-- Where the check answers with the text of the file, that is all. -/
theorem runOn_checkFile_settled (t : Tally) (hread : h.files.read h.workDir file = .ok bytes)
    (hran : Launch.Ran launcher h [⟨r.tool, m.args ++ [file], none⟩] [o] last)
    (ho : o.success = true) (hsame : o.stdout = Text.decodeLossy bytes) :
    ∃ v h', v.file = file ∧ Visited m launcher r.tool h v h' ∧
      (checkFile m t file).runOn r launcher h =
        ((.ok (t.add m v), { r with history := r.history ++ v.outputs }), h') := by
  have hdiffers : Visit.differs ⟨file, Text.decodeLossy bytes, o, none⟩ = false := by
    rw [Visit.differs, hsame, bne_self_eq_false, Bool.and_false]
  have hvisit := Visited.of_check (m := m) hread hran (by rw [hdiffers, Bool.and_false])
  rw [List.filter_cons_of_neg (by rw [ho]; exact Bool.false_ne_true), List.filter_nil,
    echoed_nil] at hvisit
  refine ⟨_, _, rfl, hvisit, ?_⟩
  rw [runOn_checkFile_ran t hread hran, ho, if_neg (by decide), if_pos hsame]
  simp [Tally.add, Visit.finding_eq, Visit.diff, Visit.outputs, hdiffers, ho]

/-- Where the check answers with another text, the file is formatted in place if that is wanted and
the tool can be started once more. -/
theorem runOn_checkFile_differing (t : Tally) (hread : h.files.read h.workDir file = .ok bytes)
    (hran : Launch.Ran launcher h [⟨r.tool, m.args ++ [file], none⟩] [o] last)
    (ho : o.success = true) (hother : o.stdout ≠ Text.decodeLossy bytes) :
    (∃ v h', v.file = file ∧ Visited m launcher r.tool h v h' ∧
      (checkFile m t file).runOn r launcher h =
        ((.ok (t.add m v), { r with history := r.history ++ v.outputs }), h')) ∨
    ∃ f h', Stops m launcher r.tool h file [o] f h' ∧
      (checkFile m t file).runOn r launcher h =
        ((.error f, { r with history := r.history ++ [o] }), h') := by
  have hdiffers : ∀ rewriting,
      Visit.differs ⟨file, Text.decodeLossy bytes, o, rewriting⟩ = true := by
    intro rewriting
    rw [Visit.differs, ho, Bool.true_and]
    exact bne_iff_ne.2 hother
  rw [runOn_checkFile_ran t hread hran, ho, if_neg (by decide), if_neg hother]
  cases hchanges : m.changesFiles with
  | false =>
    have hvisit := Visited.of_check (m := m) hread hran (by rw [hchanges, Bool.false_and])
    rw [List.filter_cons_of_neg (by rw [ho]; exact Bool.false_ne_true), List.filter_nil,
      echoed_nil] at hvisit
    refine .inl ⟨_, _, rfl, hvisit, ?_⟩
    simp [Tally.add, Visit.finding_eq, Visit.diff, Visit.outputs, hdiffers]
  | true =>
    rw [if_pos rfl, ActionOn.runOn_bind]
    cases hagain : (launcher ⟨r.tool, inPlace :: m.args ++ [file], none⟩ last).1 with
    | error e =>
      refine .inr ⟨_, _, .unchanged hread hran ho hother hchanges hagain, ?_⟩
      have hrun := runOn_execute_error launcher last { r with history := r.history ++ [o] } hagain
      rw [formatInPlace, ActionOn.runOn_bind, hrun]
    | ok o₂ =>
      have hran₂ : Launch.Ran launcher last [⟨r.tool, inPlace :: m.args ++ [file], none⟩] [o₂] _ :=
        .cons hagain (.nil _)
      obtain ⟨s, hs⟩ := runOn_formatInPlace (r := { r with history := r.history ++ [o] }) hran₂
      have hvisit : Visited m launcher r.tool h ⟨file, Text.decodeLossy bytes, o, some o₂⟩ _ :=
        { read := ⟨bytes, hread, rfl⟩
          rewrites := by rw [hchanges, hdiffers]; rfl
          ran := ⟨_, s, hran.append hran₂, rfl⟩ }
      refine .inl ⟨_, _, rfl, hvisit, ?_⟩
      rw [hs]
      simp [Tally.add, Visit.finding_eq, Visit.diff, Visit.outputs, Visit.echoes, hdiffers, ho]

/-- What becomes of one file. -/
theorem runOn_checkFile (t : Tally) (file : String) :
    (∃ v h', v.file = file ∧ Visited m launcher r.tool h v h' ∧
      (checkFile m t file).runOn r launcher h =
        ((.ok (t.add m v), { r with history := r.history ++ v.outputs }), h')) ∨
    ∃ os f h', Stops m launcher r.tool h file os f h' ∧
      (checkFile m t file).runOn r launcher h =
        ((.error f, { r with history := r.history ++ os }), h') := by
  cases hread : h.files.read h.workDir file with
  | error e =>
    refine .inr ⟨[], _, _, .unreadable hread, ?_⟩
    rw [checkFile, ActionOn.runOn_bind, ActionOn.runOn_liftM,
      runOn_readLossy_error launcher h file hread, List.append_nil]
  | ok bytes =>
    cases hcall : (launcher ⟨r.tool, m.args ++ [file], none⟩ h).1 with
    | error e =>
      refine .inr ⟨[], _, _, .unchecked hread hcall, ?_⟩
      rw [checkFile, ActionOn.runOn_bind_liftM r (runOn_readLossy_ok launcher h file hread),
        ActionOn.runOn_bind, runOn_execute_error launcher h r hcall, List.append_nil]
    | ok o =>
      have hran : Launch.Ran launcher h [⟨r.tool, m.args ++ [file], none⟩] [o] _ :=
        .cons hcall (.nil _)
      cases ho : o.success with
      | false => exact .inl (runOn_checkFile_failing t hread hran ho)
      | true =>
        by_cases hsame : o.stdout = Text.decodeLossy bytes
        · exact .inl (runOn_checkFile_settled t hread hran ho hsame)
        · exact (runOn_checkFile_differing t hread hran ho hsame).imp_right fun ⟨f, h', hf⟩ =>
            ⟨[o], f, h', hf⟩

end Checks

/-! ## One file after the other -/

variable {h mid after : Host} {r : Runner} {vs : List Visit}

theorem foldl_add (t : Tally) (vs : List Visit) : vs.foldl (Tally.add m) t =
    ⟨t.failed || vs.any Visit.finding, t.diffs ++ String.join (vs.map (Visit.diff m))⟩ := by
  induction vs generalizing t with
  | nil => rw [List.foldl_nil, List.any_nil, Bool.or_false, List.map_nil, String.join_nil,
      String.append_empty]
  | cons v vs ih =>
    rw [List.foldl_cons, ih, List.any_cons, List.map_cons, String.join_cons, Tally.add]
    dsimp only
    rw [Bool.or_assoc, String.append_assoc]

/-- The visits go through the files in order, up to the last one or to one that puts an end to
them. -/
theorem runOn_checkFiles (t : Tally) (files : List String) :
    ∃ vs mid, Visits m launcher r.tool h vs mid ∧
      ((vs.map Visit.file = files ∧ (checkFiles m t files).runOn r launcher h =
        ((.ok (vs.foldl (Tally.add m) t),
          { r with history := r.history ++ vs.flatMap Visit.outputs }), mid)) ∨
      ∃ file rest os f after, files = vs.map Visit.file ++ file :: rest ∧
        Stops m launcher r.tool mid file os f after ∧ (checkFiles m t files).runOn r launcher h =
          ((.error f, { r with history := r.history ++ (vs.flatMap Visit.outputs ++ os) }),
            after)) := by
  -- The tally, the history and the host are as the visits before have left them.
  induction files generalizing t r h with
  | nil =>
    refine ⟨[], h, .nil h, .inl ⟨rfl, ?_⟩⟩
    rw [checkFiles, ActionOn.runOn_pure, List.flatMap_nil, List.append_nil, List.foldl_nil]
  | cons file files ih =>
    rw [checkFiles, ActionOn.runOn_bind]
    rcases runOn_checkFile t file with ⟨v, h₁, rfl, hvisit, hrun⟩ | ⟨os, f, after, hstops, hrun⟩
    · obtain ⟨vs, mid, hvisits, hend⟩ :=
        @ih h₁ { r with history := r.history ++ v.outputs } (t.add m v)
      refine ⟨v :: vs, mid, .cons hvisit hvisits, ?_⟩
      rw [hrun, List.map_cons, List.foldl_cons, List.flatMap_cons]
      dsimp only at hend ⊢
      rcases hend with ⟨rfl, hdone⟩ | ⟨last, rest, os, f, after, rfl, hstops, hstopped⟩
      · refine .inl ⟨rfl, ?_⟩
        rw [hdone, List.append_assoc]
      · refine .inr ⟨last, rest, os, f, after, rfl, hstops, ?_⟩
        rw [hstopped, List.append_assoc, List.append_assoc]
    · refine ⟨[], h, .nil h, .inr ⟨file, files, os, f, after, rfl, hstops, ?_⟩⟩
      rw [hrun, List.flatMap_nil, List.nil_append]

/-- A whole run.  The differences are shown after the last visit, and never before. -/
theorem runOn_run (r : Runner) (launcher : Launcher) (h : Host) :
    ∃ vs mid, Visits (modeOf r) launcher r.tool h vs mid ∧
      ((vs.map Visit.file = r.files ∧ run.runOn r launcher h =
        ((.ok (vs.any Visit.finding), { r with history := r.history ++ vs.flatMap Visit.outputs }),
          { mid with stdout := mid.stdout ++ String.join (vs.map (Visit.diff (modeOf r))) })) ∨
      ∃ file rest os f after, r.files = vs.map Visit.file ++ file :: rest ∧
        Stops (modeOf r) launcher r.tool mid file os f after ∧ run.runOn r launcher h =
          ((.error f, { r with history := r.history ++ (vs.flatMap Visit.outputs ++ os) }),
            after)) := by
  obtain ⟨vs, mid, hvisits, hend⟩ :=
    @runOn_checkFiles (modeOf r) launcher h r {} r.files
  refine ⟨vs, mid, hvisits, ?_⟩
  rw [run, ActionOn.runOn_bind_get, ActionOn.runOn_bind]
  rcases hend with ⟨hfiles, hdone⟩ | ⟨file, rest, os, f, after, hfiles, hstops, hstopped⟩
  · refine .inl ⟨hfiles, ?_⟩
    rw [hdone, foldl_add]
    rfl
  · refine .inr ⟨file, rest, os, f, after, hfiles, hstops, ?_⟩
    rw [hstopped]

/-! ## What is shown -/

/-- What a tool says is captured, so its calls write nothing on standard output. -/
theorem stdout_ran (hquiet : ∀ args h, (launcher ⟨tool, args, none⟩ h).2.stdout = h.stdout)
    {args : List (List String)} {os : List ProcessOutput}
    (hran : Launch.Ran launcher h (args.map fun a => ⟨tool, a, none⟩) os after) :
    after.stdout = h.stdout := by
  induction args generalizing h os with
  | nil =>
    cases hran
    rfl
  | cons a args ih =>
    cases hran with
    | cons _ hrest => exact (ih hrest).trans (hquiet a h)

theorem stdout_visits (hquiet : ∀ args h, (launcher ⟨tool, args, none⟩ h).2.stdout = h.stdout)
    (hvisits : Visits m launcher tool h vs after) :
    after.stdout =
      h.stdout ++ String.join ((vs.flatMap Visit.echoes).map ProcessOutput.stdout) := by
  induction hvisits with
  | nil h => rw [List.flatMap_nil, List.map_nil, String.join_nil, String.append_empty]
  | @cons h h₁ h₂ v vs hvisit _ ih =>
    obtain ⟨last, s, hran, rfl⟩ := hvisit.ran
    have hlast := stdout_ran hquiet hran
    rw [ih, List.flatMap_cons, List.map_append, String.join_append, ← String.append_assoc, ← hlast]
    rfl

theorem stdout_stops (hquiet : ∀ args h, (launcher ⟨tool, args, none⟩ h).2.stdout = h.stdout)
    {file : String} {os : List ProcessOutput} {f : Failure}
    (hstops : Stops m launcher tool h file os f after) : after.stdout = h.stdout := by
  cases hstops with
  | unreadable => rfl
  | unchecked => exact hquiet _ h
  | @unchanged _ o last _ _ hran =>
    have hran : Launch.Ran launcher h ([m.args ++ [file]].map fun a => ⟨tool, a, none⟩) [o] last :=
      hran
    exact (hquiet _ last).trans (stdout_ran hquiet hran)

/-- What a run shows of the differences that it has found.  A run that has visited all files shows
the differences of those that should look different, in order and after all that has been copied to
the streams.  A run that was stopped shows none of them, although the files visited before may have
been formatted in place. -/
theorem run_shown (r : Runner) (launcher : Launcher) (h : Host)
    (hquiet : ∀ args h, (launcher ⟨r.tool, args, none⟩ h).2.stdout = h.stdout) :
    ∃ vs mid, Visits (modeOf r) launcher r.tool h vs mid ∧
      mid.stdout =
        h.stdout ++ String.join ((vs.flatMap Visit.echoes).map ProcessOutput.stdout) ∧
      ((vs.map Visit.file = r.files ∧ ∃ after, run.runOn r launcher h =
          ((.ok (vs.any Visit.finding),
            { r with history := r.history ++ vs.flatMap Visit.outputs }), after) ∧
          after.stdout = mid.stdout ++ String.join (vs.map (Visit.diff (modeOf r)))) ∨
      ∃ file rest os f after, r.files = vs.map Visit.file ++ file :: rest ∧
        Stops (modeOf r) launcher r.tool mid file os f after ∧ run.runOn r launcher h =
          ((.error f, { r with history := r.history ++ (vs.flatMap Visit.outputs ++ os) }),
            after) ∧
        after.stdout = mid.stdout) := by
  obtain ⟨vs, mid, hvisits, hend⟩ := runOn_run r launcher h
  refine ⟨vs, mid, hvisits, stdout_visits hquiet hvisits, ?_⟩
  rcases hend with ⟨hfiles, hdone⟩ | ⟨file, rest, os, f, after, hfiles, hstops, hstopped⟩
  · exact .inl ⟨hfiles, _, hdone, rfl⟩
  · exact .inr ⟨file, rest, os, f, after, hfiles, hstops, hstopped, stdout_stops hquiet hstops⟩

/-! ### A run that is stopped -/

/-- How every file should look. -/
def shape : String := "int x;\n"

/-- A formatter for which all files should look the same. -/
def shaping : Launcher := fun l h =>
  match l.args.getLast? with
  | none => (.ok { exitCode := 1 }, h)
  | some file =>
    match h.files.locate h.workDir file with
    | .error _ => (.ok { exitCode := 1 }, h)
    | .ok loc =>
      match h.files.get? loc with
      | some (.file _ executable) =>
        (.ok { stdout := shape },
          if inPlace ∈ l.args.dropLast then
            { h with files := h.files.set loc (.file (Text.encode shape) executable) }
          else h)
      | _ => (.ok { exitCode := 1 }, h)

theorem shaping_eq (args : List String) {file : String} {loc : Location} {content : ByteArray}
    {executable : Bool} (hlocate : h.files.locate h.workDir file = .ok loc)
    (hloc : h.files.get? loc = some (.file content executable)) :
    shaping ⟨tool, args ++ [file], none⟩ h = (.ok { stdout := shape },
      if inPlace ∈ args then
        { h with files := h.files.set loc (.file (Text.encode shape) executable) }
      else h) := by
  unfold shaping
  dsimp only
  rw [List.getLast?_concat, List.dropLast_concat]
  dsimp only
  rw [hlocate]
  dsimp only
  rw [hloc]

theorem stdout_shaping (l : Launch) (h : Host) : (shaping l h).2.stdout = h.stdout := by
  unfold shaping
  repeat' split
  all_goals rfl

/-- A directory with one file, which should look different. -/
def untidy : Host where
  files := ⟨[(["a.c"], .file (Text.encode "int  x ;\n") false)]⟩

/-- The same directory when the file has been formatted. -/
def tidied : Host where
  files := ⟨[(["a.c"], .file (Text.encode shape) false)]⟩

/-- A runner that is to format the file there, and then another one. -/
def hasty : Runner where
  tool := "/bin/clang-format"
  toolArgs := [inPlace]
  files := ["a.c", "b.c"]
  ddash := []
  settings := {}
  project := default

/-- It formats the first file in place and then stops at the second one. -/
theorem runOn_run_hasty : ∃ r, run.runOn hasty shaping untidy =
    ((.error (.readingFile "b.c" .notFound), r), tidied) := by
  have hlocate : untidy.files.locate untidy.workDir "a.c" = .ok ["a.c"] :=
    FileSystem.locate_name (by decide) (by decide) rfl rfl nofun
  have hread : untidy.files.read untidy.workDir "a.c" = .ok (Text.encode "int  x ;\n") := by
    rw [FileSystem.read, hlocate]
    rfl
  have hcheck : Launch.Ran shaping untidy [⟨hasty.tool, ["a.c"], none⟩] [{ stdout := shape }]
      untidy := Launch.ran_of_silent (shaping_eq [] hlocate rfl) rfl
  have hchange : Launch.Ran shaping untidy [⟨hasty.tool, [inPlace, "a.c"], none⟩]
      [{ stdout := shape }] tidied :=
    Launch.ran_of_silent (shaping_eq [inPlace] hlocate rfl) rfl
  have hmode : modeOf hasty = ⟨[], true, true⟩ := by decide
  have hfirst : ∃ t r, (checkFile (modeOf hasty) {} "a.c").runOn hasty shaping untidy =
      ((.ok t, r), tidied) := by
    have hother : shape ≠ "int  x ;\n" := by decide
    have hagain := runOn_execute_ran
      (r := { hasty with history := hasty.history ++ [{ stdout := shape }] }) hchange
    dsimp only at hagain
    rw [hmode, runOn_checkFile_ran {} hread hcheck, if_neg (by decide), Text.decodeLossy_encode,
      if_neg hother, if_pos rfl, ActionOn.runOn_bind, formatInPlace, ActionOn.runOn_bind]
    dsimp only
    rw [List.cons_append, List.nil_append, hagain]
    exact ⟨_, _, rfl⟩
  obtain ⟨t, r, hfirst⟩ := hfirst
  have hmissing : tidied.files.read tidied.workDir "b.c" = .error .notFound := by
    have hsteps : FileSystem.steps "b.c" = ["b.c"] := by decide
    have hroot : tidied.files.get? [] = some .directory := rfl
    have hnone : tidied.files.get? ["b.c"] = none := by decide
    have hwalk : tidied.files.walk {} 40 [] ["b.c"] = .error .notFound := by
      simp [FileSystem.walk, hroot, hnone]
    rw [FileSystem.read, FileSystem.locate, if_neg (by decide), if_neg (by decide), hsteps,
      if_neg (by decide)]
    exact congrArg (· >>= _) hwalk
  refine ⟨r, ?_⟩
  have hfiles : hasty.files = ["a.c", "b.c"] := rfl
  rw [run, ActionOn.runOn_bind_get, ActionOn.runOn_bind, hfiles, checkFiles, ActionOn.runOn_bind,
    hfirst]
  dsimp only
  rw [checkFiles, ActionOn.runOn_bind, checkFile, ActionOn.runOn_bind, ActionOn.runOn_liftM,
    runOn_readLossy_error _ _ _ hmissing]

/-- The file has been formatted in place, and what has been changed is not shown. -/
theorem run_unshown : hasty.settings.flag .noDiff = false ∧
    untidy.files.get? ["a.c"] = some (.file (Text.encode "int  x ;\n") false) ∧
    ∃ r after,
      run.runOn hasty shaping untidy = ((.error (.readingFile "b.c" .notFound), r), after) ∧
      after.files.get? ["a.c"] = some (.file (Text.encode "int x;\n") false) ∧
      after.stdout = "" := by
  obtain ⟨r, hrun⟩ := runOn_run_hasty
  exact ⟨rfl, rfl, r, tidied, hrun, rfl, rfl⟩

/-- The files that have been visited there, and what is shown of them. -/
theorem run_shown_hasty :
    (∀ args h, (shaping ⟨hasty.tool, args, none⟩ h).2.stdout = h.stdout) ∧
    ∃ vs mid file rest, Visits (modeOf hasty) shaping hasty.tool untidy vs mid ∧
      hasty.files = vs.map Visit.file ++ file :: rest ∧ mid.stdout = "" := by
  obtain ⟨r, hrun⟩ := runOn_run_hasty
  have hquiet : ∀ args h, (shaping ⟨hasty.tool, args, none⟩ h).2.stdout = h.stdout :=
    fun args h => stdout_shaping _ h
  obtain ⟨vs, mid, hvisits, -, hend⟩ := run_shown hasty shaping untidy hquiet
  refine ⟨hquiet, vs, mid, ?_⟩
  rcases hend with ⟨-, after, hdone, -⟩ | ⟨file, rest, os, f, after, hfiles, -, hstopped, hout⟩
  · cases hdone.symm.trans hrun
  · cases hstopped.symm.trans hrun
    exact ⟨file, rest, hvisits, hfiles, hout.symm⟩

end Formatting

end LintHooks
