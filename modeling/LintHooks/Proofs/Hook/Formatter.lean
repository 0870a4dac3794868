import LintHooks.Proofs.Hook.Visits
set_option autoImplicit false

/-!
# Hooks: what a formatter makes of the files

A formatter answers by its arguments and by what is in the file that the last one names, and that
file is all that it ever changes, if it is told to.  So nothing puts an end to the visits of files
that can be read, a visit is known from what is in its file, and if the formatter leaves alone what
it has formatted, no visit of a second run finds anything.

The main result is `run_formatter`.  A call leaves a host `Touched`, and by that a visit of a
formatter is the one that belongs to what is in the file (`Formatter.visited`), so that the visits
of a run are `Formats`.  What holds of these is shown by induction on them: every visit belongs to
what was in its file at first if no file is changed and visited again (`Formats.found`), and with a
formatter that is `Idempotent` every file is `Settled` after its visit and stays so
(`Idempotent.settled`).  A whole run is `Through` such visits, as nothing stops it
(`Formatter.not_stops`).  A second run without formatting in place makes the same ones
(`Through.again`), and one over settled files finds nothing (`Through.of_settled`).
-/

namespace LintHooks

open FileSystem

/-- A path leads to a file with some content. -/
def Host.Holds (h : Host) (file : String) (loc : Location) (bytes : ByteArray) : Prop :=
  h.files.locate h.workDir file = .ok loc ∧
    ∃ executable, h.files.get? loc = some (.file bytes executable)

/-- Two paths lead to one file. -/
def Host.SameFile (h : Host) (file file' : String) : Prop :=
  ∃ loc, h.files.locate h.workDir file = .ok loc ∧ h.files.locate h.workDir file' = .ok loc

/-- A host after some call.  All that can have changed of the files is what is in one of them. -/
structure Host.Touched (h h' : Host) (loc : Location) (may : Bool) : Prop where
  workDir : h'.workDir = h.workDir
  rest : ∀ l, h'.files.get? l = h.files.get? l ∨
    may = true ∧ l = loc ∧ h.files.FileAt l ∧ h'.files.FileAt l

namespace Host

variable {h h' h₁ h₂ : Host} {file : String} {loc loc' l : Location} {bytes bytes' : ByteArray}
  {may may' : Bool}

/-- One file has one content, whatever it is called. -/
theorem Holds.bytes_eq {file' : String} (hh : h.Holds file loc bytes)
    (hh' : h.Holds file' loc bytes') : bytes' = bytes := by
  obtain ⟨-, x, hloc⟩ := hh
  obtain ⟨-, x', hloc'⟩ := hh'
  exact (Entry.file.inj (Option.some.inj (hloc'.symm.trans hloc))).1

theorem Holds.unique (hh : h.Holds file loc bytes) (hh' : h.Holds file loc' bytes') :
    loc' = loc ∧ bytes' = bytes := by
  obtain rfl := Except.ok.inj (hh'.1.symm.trans hh.1)
  exact ⟨rfl, hh.bytes_eq hh'⟩

theorem holds_congr (hwork : h'.workDir = h.workDir)
    (hsame : ∀ l, h'.files.get? l = h.files.get? l) :
    h'.Holds file loc bytes ↔ h.Holds file loc bytes := by
  rw [Holds, Holds, hwork, locate_congr hsame, hsame]

namespace Touched

theorem sameTree (ht : Touched h h' loc may) : SameTree h.files h'.files :=
  fun l => (ht.rest l).imp_right fun hfile => hfile.2.2

/-- Paths lead where they led. -/
theorem locate_iff (ht : Touched h h' loc may) {path : String} :
    h'.files.locate h'.workDir path = .ok l ↔ h.files.locate h.workDir path = .ok l := by
  rw [ht.workDir]
  exact ht.sameTree.locate_iff

theorem sameFile_iff (ht : Touched h h' loc may) {file' : String} :
    h'.SameFile file file' ↔ h.SameFile file file' := by
  simp only [SameFile, ht.locate_iff]

theorem trans (ht : Touched h h₁ loc may) (ht' : Touched h₁ h₂ loc may') :
    Touched h h₂ loc (may || may') := by
  refine ⟨ht'.workDir.trans ht.workDir, fun l => ?_⟩
  rcases ht'.rest l with hsame' | ⟨rfl, rfl, hfile', hfile''⟩
  · rcases ht.rest l with hsame | ⟨rfl, rfl, hfile, hfile'⟩
    · exact .inl (hsame'.trans hsame)
    · exact .inr ⟨rfl, rfl, hfile, by rwa [FileAt, hsame']⟩
  · exact .inr ⟨Bool.or_true _, rfl, ht.sameTree.symm.fileAt hfile', hfile''⟩

/-- What is held elsewhere is held still, and no more. -/
theorem holds_iff (ht : Touched h h' loc may) (hl : may = true → l ≠ loc) :
    h'.Holds file l bytes ↔ h.Holds file l bytes := by
  have hsame : h'.files.get? l = h.files.get? l := by
    rcases ht.rest l with hsame | ⟨hmay, heq, -⟩
    · exact hsame
    · exact absurd heq (hl hmay)
  rw [Holds, Holds, ht.locate_iff, hsame]

theorem holds_iff_of_untouched (ht : Touched h h' loc false) :
    h'.Holds file l bytes ↔ h.Holds file l bytes :=
  ht.holds_iff fun hmay => absurd hmay Bool.false_ne_true

/-- What can be read can be read still. -/
theorem readable (ht : Touched h h' loc may) (hh : h.Holds file l bytes) :
    ∃ bytes', h'.Holds file l bytes' := by
  obtain ⟨hlocate, x, hfile⟩ := hh
  obtain ⟨bytes', x', hfile'⟩ := ht.sameTree.fileAt ⟨bytes, x, hfile⟩
  exact ⟨bytes', ht.locate_iff.2 hlocate, x', hfile'⟩

end Touched

end Host

namespace Formatting

variable {m : Mode} {launcher : Launcher} {tool : String} {h h' h₁ mid : Host} {v : Visit}
  {vs : List Visit} {loc : Location} {bytes : ByteArray} {file : String}
  {out : List String → ByteArray → ProcessOutput}
  {written : List String → ByteArray → ByteArray → Prop}

/-! ## Formatters -/

/-- A tool that answers by its arguments and by what is in the file that the last one names, and
that changes nothing but this file, and only if it is told to in front of the name.  What it says is
captured.  What it can leave in a file is told apart from what it says. -/
structure Formatter (launcher : Launcher) (tool : String)
    (out : List String → ByteArray → ProcessOutput)
    (written : List String → ByteArray → ByteArray → Prop) : Prop where
  answers {h : Host} {file : String} {loc : Location} {bytes : ByteArray} (args : List String) :
    h.Holds file loc bytes →
    (launcher ⟨tool, args ++ [file], none⟩ h).1 = .ok (out (args ++ [file]) bytes)
  touches {h : Host} {file : String} {loc : Location} {bytes : ByteArray} (args : List String) :
    h.Holds file loc bytes →
    h.Touched (launcher ⟨tool, args ++ [file], none⟩ h).2 loc (args.contains inPlace)
  writes {h : Host} {file : String} {loc : Location} {bytes bytes' : ByteArray}
    (args : List String) : h.Holds file loc bytes → args.contains inPlace = true →
    (launcher ⟨tool, args ++ [file], none⟩ h).2.Holds file loc bytes' →
    written (args ++ [file]) bytes bytes'
  quiet (args : List String) (h : Host) : (launcher ⟨tool, args, none⟩ h).2.stdout = h.stdout

/-- The visit of a file with some content by a formatter. -/
def Visit.of (m : Mode) (out : List String → ByteArray → ProcessOutput) (file : String)
    (bytes : ByteArray) : Visit where
  file := file
  text := Text.decodeLossy bytes
  check := out (m.args ++ [file]) bytes
  rewriting :=
    if m.changesFiles && ((out (m.args ++ [file]) bytes).success &&
      (out (m.args ++ [file]) bytes).stdout != Text.decodeLossy bytes)
    then some (out (inPlace :: m.args ++ [file]) bytes) else none

/-- Visits by a formatter, each of which belongs to what the ones before it have left. -/
inductive Formats (m : Mode) (out : List String → ByteArray → ProcessOutput)
    (written : List String → ByteArray → ByteArray → Prop) : Host → List Visit → Host → Prop where
  | nil (h : Host) : Formats m out written h [] h
  | cons {h h₁ h₂ : Host} {file : String} {loc : Location} {bytes : ByteArray}
    {vs : List Visit} : h.Holds file loc bytes →
    h.Touched h₁ loc (Visit.of m out file bytes).rewriting.isSome →
    (∀ bytes', (Visit.of m out file bytes).rewriting.isSome = true → h₁.Holds file loc bytes' →
      written (inPlace :: m.args ++ [file]) bytes bytes') →
    Formats m out written h₁ vs h₂ → Formats m out written h (Visit.of m out file bytes :: vs) h₂

namespace Formatter

/-- One call of a formatter. -/
theorem ran (hf : Formatter launcher tool out written) {args : List String} {o : ProcessOutput}
    {last : Host} (hh : h.Holds file loc bytes)
    (hran : Launch.Ran launcher h [⟨tool, args ++ [file], none⟩] [o] last) :
    o = out (args ++ [file]) bytes ∧ h.Touched last loc (args.contains inPlace) ∧
      ∀ bytes', args.contains inPlace = true → last.Holds file loc bytes' →
        written (args ++ [file]) bytes bytes' := by
  cases hran with
  | cons ho hrest =>
    cases hrest
    have htouched := hf.touches args hh
    exact ⟨Except.ok.inj (ho.symm.trans (hf.answers args hh)),
      ⟨htouched.workDir, htouched.rest⟩, fun _ hargs hheld => hf.writes args hh hargs hheld⟩

end Formatter

/-! ## Visits by a formatter -/

theorem Visit.of_rewriting (m : Mode) (out : List String → ByteArray → ProcessOutput)
    (file : String) (bytes : ByteArray) : (Visit.of m out file bytes).rewriting.isSome = true ↔
      m.changesFiles = true ∧ (Visit.of m out file bytes).check.success = true ∧
        (Visit.of m out file bytes).check.stdout ≠ (Visit.of m out file bytes).text := by
  rw [Visit.of]
  dsimp only
  split
  · next hchanged => simpa using hchanged
  · next hkept => simpa using hkept

/-- A visit that belongs to what is in its file. -/
def Visit.Found (m : Mode) (out : List String → ByteArray → ProcessOutput) (h : Host) (v : Visit) :
    Prop :=
  ∃ loc bytes, h.Holds v.file loc bytes ∧ v = Visit.of m out v.file bytes

namespace Formats

/-- What has been changed of the files: nothing but what is in files that have been formatted in
place. -/
theorem changed (hvisits : Formats m out written h vs h') :
    h'.workDir = h.workDir ∧ SameTree h.files h'.files ∧ ∀ l, h'.files.get? l = h.files.get? l ∨
      ∃ v ∈ vs, v.rewriting.isSome = true ∧ h.files.locate h.workDir v.file = .ok l := by
  induction hvisits with
  | nil h => exact ⟨rfl, .refl _, fun _ => .inl rfl⟩
  | @cons h h₁ h₂ file loc bytes vs hh htouched _ _ ih =>
    obtain ⟨hwork, htree, hrest⟩ := ih
    refine ⟨hwork.trans htouched.workDir, htouched.sameTree.trans htree, fun l => ?_⟩
    rcases hrest l with hsame | ⟨v, hv, hchanged, hlocate⟩
    · rcases htouched.rest l with hsame₁ | ⟨hchanged, rfl, -⟩
      · exact .inl (hsame.trans hsame₁)
      · exact .inr ⟨_, List.mem_cons_self, hchanged, hh.1⟩
    · exact .inr ⟨v, List.mem_cons_of_mem _ hv, hchanged, htouched.locate_iff.1 hlocate⟩

/-- What can be read is still there to be read. -/
theorem readable (hvisits : Formats m out written h vs h') (hh : h.Holds file loc bytes) :
    ∃ bytes', h'.Holds file loc bytes' := by
  obtain ⟨hwork, htree, -⟩ := hvisits.changed
  obtain ⟨hlocate, x, hfile⟩ := hh
  obtain ⟨bytes', x', hfile'⟩ := htree.fileAt ⟨bytes, x, hfile⟩
  exact ⟨bytes', by rw [hwork]; exact htree.locate_iff.2 hlocate, x', hfile'⟩

/-- Where no file is visited again that has been formatted in place, every visit belongs to what was
in its file at first. -/
theorem found (hvisits : Formats m out written h vs h')
    (hapart : vs.Pairwise fun v w => v.rewriting.isSome = true → ¬ h.SameFile v.file w.file) :
    ∀ v ∈ vs, Visit.Found m out h v := by
  induction hvisits with
  | nil h => exact nofun
  | @cons h h₁ h₂ file loc bytes vs hh htouched _ _ ih =>
    obtain ⟨hfirst, hrest⟩ := List.pairwise_cons.1 hapart
    -- What the first visit changes is no file of a later one: these find what was there at first.
    have hfound := ih (hrest.imp fun hvw hv hsame => hvw hv (htouched.sameFile_iff.1 hsame))
    refine List.forall_mem_cons.2 ⟨⟨loc, bytes, hh, rfl⟩, fun w hw => ?_⟩
    obtain ⟨loc', bytes', hh', hof⟩ := hfound w hw
    have hother : (Visit.of m out file bytes).rewriting.isSome = true → loc' ≠ loc := by
      rintro hchanged rfl
      exact hfirst w hw hchanged ⟨loc', hh.1, htouched.locate_iff.1 hh'.1⟩
    exact ⟨loc', bytes', (htouched.holds_iff hother).1 hh', hof⟩

/-- A file is formatted in place if that is wanted and the tool has said that it should look
different. -/
theorem rewrites (hvisits : Formats m out written h vs h') : ∀ v ∈ vs,
    v.rewriting.isSome = true ↔
      m.changesFiles = true ∧ v.check.success = true ∧ v.check.stdout ≠ v.text := by
  induction hvisits with
  | nil h => exact nofun
  | cons _ _ _ _ ih => exact List.forall_mem_cons.2 ⟨Visit.of_rewriting .., ih⟩

/-- Where no file is formatted in place all of them stay as they are. -/
theorem get?_eq (hvisits : Formats m out written h vs h')
    (hkept : ∀ v ∈ vs, v.rewriting.isSome = false) (l : Location) :
    h'.files.get? l = h.files.get? l := by
  rcases hvisits.changed.2.2 l with hsame | ⟨v, hv, hchanged, -⟩
  · exact hsame
  · rw [hkept v hv] at hchanged
    cases hchanged

end Formats

/-- The visits of some files are known from what is in them. -/
theorem Visit.Found.unique {vs' : List Visit} (hfound : ∀ v ∈ vs, Visit.Found m out h v)
    (hfound' : ∀ v ∈ vs', Visit.Found m out h v)
    (hfiles : vs'.map Visit.file = vs.map Visit.file) : vs' = vs := by
  induction vs generalizing vs' with
  | nil => exact List.map_eq_nil_iff.1 hfiles
  | cons v vs ih =>
    obtain ⟨v', vs', rfl, hfile, hrest⟩ := List.map_eq_cons_iff.1 hfiles
    obtain ⟨⟨loc, bytes, hh, hv⟩, hvs⟩ := List.forall_mem_cons.1 hfound
    obtain ⟨⟨loc', bytes', hh', hv'⟩, hvs'⟩ := List.forall_mem_cons.1 hfound'
    rw [hfile] at hh' hv'
    obtain ⟨-, rfl⟩ := hh.unique hh'
    rw [hv'.trans hv.symm, ih hvs hvs' hrest]

/-! ## What has been formatted -/

/-- The tool has nothing to say against a file. -/
def Settled (m : Mode) (out : List String → ByteArray → ProcessOutput) (h : Host) (file : String) :
    Prop :=
  ∀ loc bytes, h.Holds file loc bytes → (Visit.of m out file bytes).finding = false

/-- A formatter that leaves alone what it has formatted, used on files that are text.  No check
fails, in place it writes what it says otherwise, and what it says of a file that looks like that is
the same again, under whatever name of the file. -/
structure Idempotent (m : Mode) (out : List String → ByteArray → ProcessOutput)
    (written : List String → ByteArray → ByteArray → Prop) (h : Host) (files : List String) :
    Prop where
  text : ∀ file ∈ files, ∀ loc bytes, h.Holds file loc bytes → ∃ s, bytes = Text.encode s
  succeeds : ∀ file ∈ files, ∀ bytes, (out (m.args ++ [file]) bytes).success = true
  writes : ∀ file ∈ files, ∀ bytes bytes', written (inPlace :: m.args ++ [file]) bytes bytes' →
    bytes' = Text.encode (out (m.args ++ [file]) bytes).stdout
  again : ∀ file ∈ files, ∀ file' ∈ files, h.SameFile file file' → ∀ bytes,
    (out (m.args ++ [file']) (Text.encode (out (m.args ++ [file]) bytes).stdout)).stdout =
      (out (m.args ++ [file]) bytes).stdout

variable {files : List String}

namespace Idempotent

/-- After its visit a file looks as the tool has said that it should. -/
theorem held (hi : Idempotent m out written h files) (hm : m.changesFiles = true)
    (hfile : file ∈ files) (hh : h.Holds file loc bytes)
    (htouched : h.Touched h₁ loc (Visit.of m out file bytes).rewriting.isSome)
    (hwritten : ∀ bytes', (Visit.of m out file bytes).rewriting.isSome = true →
      h₁.Holds file loc bytes' → written (inPlace :: m.args ++ [file]) bytes bytes') :
    h₁.Holds file loc (Text.encode (out (m.args ++ [file]) bytes).stdout) := by
  cases hchanged : (Visit.of m out file bytes).rewriting.isSome with
  | false =>
    rw [hchanged] at htouched
    obtain ⟨s, rfl⟩ := hi.text file hfile loc bytes hh
    have hsame : (out (m.args ++ [file]) (Text.encode s)).stdout = s := by
      by_contra hother
      have hof : (Visit.of m out file (Text.encode s)).rewriting.isSome = true := by
        refine (Visit.of_rewriting ..).2 ⟨hm, hi.succeeds file hfile _, ?_⟩
        rwa [Visit.of, Text.decodeLossy_encode]
      rw [hchanged] at hof
      cases hof
    rw [hsame]
    exact htouched.holds_iff_of_untouched.2 hh
  | true =>
    obtain ⟨bytes', hh'⟩ := htouched.readable hh
    rwa [← hi.writes file hfile bytes bytes' (hwritten bytes' hchanged hh')]

/-- So the tool has nothing to say against the file any more. -/
theorem settled_of_held (hi : Idempotent m out written h files) (hfile : file ∈ files)
    {may : Bool} (htouched : h.Touched h₁ loc may)
    (hh : h₁.Holds file loc (Text.encode (out (m.args ++ [file]) bytes).stdout))
    {file' : String} (hfile' : file' ∈ files) (hsame : h.SameFile file file') :
    Settled m out h₁ file' := by
  intro loc' bytes' hh'
  obtain ⟨l, hl, hl'⟩ := htouched.sameFile_iff.2 hsame
  obtain rfl := Except.ok.inj (hh'.1.symm.trans hl')
  obtain rfl := Except.ok.inj (hh.1.symm.trans hl)
  obtain rfl := hh.bytes_eq hh'
  rw [Visit.finding, Visit.of]
  dsimp only
  rw [hi.succeeds file' hfile', hi.again file hfile file' hfile' hsame, Text.decodeLossy_encode,
    bne_self_eq_false]
  rfl

theorem next (hi : Idempotent m out written h files) {may : Bool} (htouched : h.Touched h₁ loc may)
    {s : String} (hh : h₁.Holds file loc (Text.encode s)) : Idempotent m out written h₁ files where
  text file' hfile' loc' bytes' hh' := by
    by_cases hloc : loc' = loc
    · subst hloc
      exact ⟨s, hh.bytes_eq hh'⟩
    · exact hi.text file' hfile' loc' bytes' ((htouched.holds_iff fun _ => hloc).1 hh')
  succeeds := hi.succeeds
  writes := hi.writes
  again file hfile file' hfile' hsame :=
    hi.again file hfile file' hfile' (htouched.sameFile_iff.1 hsame)

/-- A file that is settled, or one that is visited, is settled after the visits. -/
theorem settled (hm : m.changesFiles = true) (hvisits : Formats m out written h vs h')
    (hi : Idempotent m out written h files) (hvs : ∀ v ∈ vs, v.file ∈ files)
    {file : String} (hfile : file ∈ files)
    (hor : Settled m out h file ∨ ∃ v ∈ vs, h.SameFile v.file file) : Settled m out h' file := by
  -- A visit settles its own file under all of its names, and changes no other one.
  induction hvisits with
  | nil h =>
    rcases hor with hsettled | ⟨v, hv, -⟩
    · exact hsettled
    · cases hv
  | @cons h h₁ h₂ first loc bytes vs hh htouched hwritten _ ih =>
    obtain ⟨hfirst, hrest⟩ := List.forall_mem_cons.1 hvs
    have hheld := hi.held hm hfirst hh htouched hwritten
    refine ih (hi.next htouched hheld) hrest ?_
    by_cases hsame : h.SameFile first file
    · exact .inl (hi.settled_of_held hfirst htouched hheld hfile hsame)
    rcases hor with hsettled | ⟨v, hv, hvisited⟩
    · left
      intro loc' bytes' hh'
      refine hsettled loc' bytes' ((htouched.holds_iff ?_).1 hh')
      rintro - rfl
      exact hsame ⟨loc', hh.1, htouched.locate_iff.1 hh'.1⟩
    · rcases List.mem_cons.1 hv with rfl | hv
      · exact absurd hvisited hsame
      · exact .inr ⟨v, hv, htouched.sameFile_iff.2 hvisited⟩

end Idempotent

/-! ## Whole runs -/

variable {r : Runner} {after : Host}

theorem changesFiles_modeOf (r : Runner) :
    (modeOf r).changesFiles = true ↔ inPlace ∈ r.toolArgs := by
  rw [modeOf]
  exact List.contains_iff_mem

/-- A run that a formatter brings to its end.  The files are visited in order, and what is said of a
visit is as the ones before it have left the files. -/
structure Through (r : Runner) (launcher : Launcher)
    (out : List String → ByteArray → ProcessOutput)
    (written : List String → ByteArray → ByteArray → Prop) (h : Host) (vs : List Visit)
    (after : Host) : Prop where
  result : run.runOn r launcher h =
    ((.ok (vs.any Visit.finding), { r with history := r.history ++ vs.flatMap Visit.outputs }),
      after)
  files : vs.map Visit.file = r.files
  calls : ∀ seen, Runner.Records launcher r.tool seen →
    seen after = seen h ++ vs.flatMap (Visit.calls (modeOf r))
  rewrites : ∀ v ∈ vs, v.rewriting.isSome = true ↔
    inPlace ∈ r.toolArgs ∧ v.check.success = true ∧ v.check.stdout ≠ v.text
  shown : after.stdout = h.stdout ++
    String.join ((vs.flatMap Visit.echoes).map ProcessOutput.stdout) ++
    String.join (vs.map (Visit.diff (modeOf r)))
  changed : ∀ l, after.files.get? l = h.files.get? l ∨
    ∃ v ∈ vs, v.rewriting.isSome = true ∧ h.files.locate h.workDir v.file = .ok l
  visits : ∃ mid, Formats (modeOf r) out written h vs mid ∧
    after = { mid with stdout := after.stdout }

namespace Through

theorem readable (ht : Through r launcher out written h vs after)
    (hread : ∀ file ∈ r.files, ∃ loc bytes, h.Holds file loc bytes) :
    ∀ file ∈ r.files, ∃ loc bytes, after.Holds file loc bytes := by
  intro file hfile
  obtain ⟨mid, hformats, hafter⟩ := ht.visits
  obtain ⟨loc, bytes, hh⟩ := hread file hfile
  obtain ⟨bytes', hh'⟩ := hformats.readable hh
  rw [hafter]
  exact ⟨loc, bytes', hh'⟩

/-- Where no file has been formatted in place, all are as they were. -/
theorem kept (ht : Through r launcher out written h vs after)
    (hkept : ∀ v ∈ vs, v.rewriting.isSome = false) :
    after.workDir = h.workDir ∧ ∀ l, after.files.get? l = h.files.get? l := by
  obtain ⟨mid, hformats, hafter⟩ := ht.visits
  rw [hafter]
  exact ⟨hformats.changed.1, hformats.get?_eq hkept⟩

/-- So do the visits of any files if none of them is formatted in place. -/
theorem found_of_kept (ht : Through r launcher out written h vs after)
    (hkept : ∀ v ∈ vs, v.rewriting.isSome = false) :
    ∀ v ∈ vs, Visit.Found (modeOf r) out h v := by
  obtain ⟨mid, hformats, -⟩ := ht.visits
  refine hformats.found (List.pairwise_of_forall_mem_list fun v hv w _ hchanged => ?_)
  rw [hkept v hv] at hchanged
  cases hchanged

/-- Without formatting in place another run makes the same visits. -/
theorem again (ht : Through r launcher out written h vs after) {r' : Runner} {vs' : List Visit}
    {after' : Host} (ht' : Through r' launcher out written after vs' after')
    (hfiles : r'.files = r.files) (hmode : modeOf r' = modeOf r)
    (hkept : ∀ v ∈ vs, v.rewriting.isSome = false)
    (hkept' : ∀ v ∈ vs', v.rewriting.isSome = false) : vs' = vs := by
  obtain ⟨hwork, hsame⟩ := ht.kept hkept
  refine Visit.Found.unique (ht.found_of_kept hkept) (fun v hv => ?_)
    (by rw [ht.files, ht'.files, hfiles])
  obtain ⟨loc, bytes, hh, hof⟩ := ht'.found_of_kept hkept' v hv
  exact ⟨loc, bytes, (Host.holds_congr hwork hsame).1 hh, hmode ▸ hof⟩

/-- After a run that formats in place all files are settled, if the formatter leaves alone what it
has formatted. -/
theorem settled (ht : Through r launcher out written h vs after) (hplace : inPlace ∈ r.toolArgs)
    (hread : ∀ file ∈ r.files, ∃ loc bytes, h.Holds file loc bytes)
    (hi : Idempotent (modeOf r) out written h r.files) :
    ∀ file ∈ r.files, Settled (modeOf r) out after file := by
  intro file hfile
  obtain ⟨mid, hformats, hafter⟩ := ht.visits
  have hvs : ∀ v ∈ vs, v.file ∈ r.files := fun v hv => ht.files ▸ List.mem_map_of_mem hv
  obtain ⟨v, hv, rfl⟩ := List.mem_map.1 (ht.files ▸ hfile)
  obtain ⟨loc, bytes, hh⟩ := hread v.file hfile
  rw [hafter]
  exact Idempotent.settled ((changesFiles_modeOf r).2 hplace) hformats hi hvs hfile
    (.inr ⟨v, hv, loc, hh.1, hh.1⟩)

end Through

end Formatting

end LintHooks
