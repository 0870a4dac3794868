import LintHooks.Proofs.CMake.TraceLog
import LintHooks.Proofs.Text.Basic
set_option autoImplicit false

/-!
# CMake: whose calls matter

A call of `configure_file` matters if the project's own files make it.  Where a file is gets judged
by its text alone: the text of the source directory has to occur in it, wherever that is, and the
one of the directory of fetched dependencies must not.  That is right for a file whose path has
these texts only as its beginning, where the names of the directories end; a directory whose name
goes on after theirs is taken for theirs.

The main result is `generatedFiles_ofProject`.  Its first half is for all logs: a line counts if it
`Calls` with the right texts in the path of the file (`output?_ofProject_iff`), which is what the
scope of a project asks of an entry (`covers_ofProject_iff`).  Its second half is for directories
whose texts are `Telling`, where having the text is being inside (`Telling.source_iff`,
`Telling.fetched_iff`).  That this is more than a formality shows in `generatedFiles_sibling`, where
a directory beside the source directory counts as inside.
-/

namespace LintHooks.CMake

open Json (Document)

/-- A line is a call of `configure_file` by a file, with a second argument. -/
def Calls (line : List Char) (file output : String) : Prop :=
  ∃ v e input rest, Document v line ∧ TraceEntry.shape.Means TraceEntry.value v e ∧
    e.command = "configure_file" ∧ e.file = file ∧ e.args = input :: output :: rest

/-- Where the dependencies are that CMake has fetched, if that is known. -/
def Fetched (cache : CacheVariables) (dir : String) : Prop :=
  cache.value? "FETCHCONTENT_BASE_DIR" = some dir ∧ dir ≠ ""

/-- The text of a path with slashes for backslashes. -/
def slashed (path : String) : List Char := path.toList.map fun c => if c = '\\' then '/' else c

variable {source build : String} {cache : CacheVariables} {line : List Char} {file : String}

theorem covers_ofProject_iff {e : TraceEntry} :
    (TraceScope.ofProject source build cache).covers e = true ↔ e.command = "configure_file" ∧
      slashed source <:+: e.file.toList ∧
        ∀ dir, Fetched cache dir → ¬ dir.toList <:+: e.file.toList := by
  have hsource : (source.map fun c => if c = '\\' then '/' else c).toList = slashed source :=
    String.toList_map ..
  simp only [TraceScope.covers, TraceScope.ofProject, Bool.and_eq_true, beq_iff_eq, hsource,
    Text.occurs_iff, Option.all_eq_true_iff_get, and_assoc]
  refine and_congr_right fun _ => and_congr_right fun _ => ?_
  cases hdir : cache.value? "FETCHCONTENT_BASE_DIR" with
  | none => simp [Fetched, hdir]
  | some dir =>
    by_cases hempty : dir = ""
    · simp [Fetched, hdir, hempty]
    · simp [Fetched, hdir, hempty, ← Bool.not_eq_true, Text.occurs_iff]

/-- What a line says is read off the line. -/
theorem Calls.eq_of_parse {line : List Char} {file output : String} {e : TraceEntry}
    (h : Calls line file output) (hparse : TraceEntry.parse line = .ok e) :
    e.file = file ∧ ∃ input rest, e.args = input :: output :: rest := by
  obtain ⟨v, e', input, rest, hdocument, hmeans, -, rfl, hargs⟩ := h
  have hparse' := TraceEntry.parse_eq_ok_iff.2 ⟨v, hdocument, hmeans⟩
  obtain rfl := Except.ok.inj (hparse.symm.trans hparse')
  exact ⟨rfl, input, rest, hargs⟩

/-- A line counts if its call is by a file with the right texts in its path. -/
theorem output?_ofProject_iff {out : String} :
    (TraceLine.of (.ofProject source build cache) line).output? = some out ↔
      ∃ file output, Calls line file output ∧ slashed source <:+: file.toList ∧
        (∀ dir, Fetched cache dir → ¬ dir.toList <:+: file.toList) ∧
        Path.join build output = out := by
  rw [TraceLine.output?_eq_some_iff]
  simp only [TraceEntry.parse_eq_ok_iff, covers_ofProject_iff]
  constructor
  · rintro ⟨e, input, output, rest, ⟨v, hdocument, hmeans⟩, ⟨hcommand, hsource, hfetched⟩, hargs,
      rfl⟩
    exact ⟨e.file, output, ⟨v, e, input, rest, hdocument, hmeans, hcommand, rfl, hargs⟩, hsource,
      hfetched, rfl⟩
  · rintro ⟨_, output, ⟨v, e, input, rest, hdocument, hmeans, hcommand, rfl, hargs⟩, hsource,
      hfetched, rfl⟩
    exact ⟨e, input, output, rest, ⟨v, hdocument, hmeans⟩, ⟨hcommand, hsource, hfetched⟩, hargs,
      rfl⟩

/-- The texts of the directories occur in the path of a file only where they say where it is. -/
structure Telling (source : String) (cache : CacheVariables) (file : String) : Prop where
  normal : Path.Normal file
  source_normal : Path.Normal source
  noBackslash : '\\' ∉ source.toList
  source_inside : source.toList <:+: file.toList → Path.Inside source file
  fetched_normal : ∀ dir, Fetched cache dir → Path.Normal dir
  fetched_inside : ∀ dir, Fetched cache dir → dir.toList <:+: file.toList → Path.Inside dir file

theorem slashed_eq {path : String} (h : '\\' ∉ path.toList) : slashed path = path.toList := by
  refine (List.map_congr_left fun c hc => ?_).trans (List.map_id _)
  have hc' : c ≠ '\\' := fun heq => h (heq ▸ hc)
  exact if_neg hc'

theorem Telling.source_iff (h : Telling source cache file) :
    slashed source <:+: file.toList ↔ Path.Inside source file := by
  rw [slashed_eq h.noBackslash]
  exact ⟨h.source_inside, fun hin => (hin.isPrefix h.source_normal h.normal).isInfix⟩

theorem Telling.fetched_iff (h : Telling source cache file) {dir : String}
    (hdir : Fetched cache dir) : dir.toList <:+: file.toList ↔ Path.Inside dir file :=
  ⟨h.fetched_inside dir hdir,
    fun hin => (hin.isPrefix (h.fetched_normal dir hdir) h.normal).isInfix⟩

/-- The files that a project generates are those of the lines of the log whose calls are by files
with the right texts in their paths, in the order of the log.  Where the texts tell which files are
inside which directory, these are the calls by files that are inside the source directory and not
inside the one of fetched dependencies. -/
theorem generatedFiles_ofProject (log source build : String) (cache : CacheVariables) :
    ∃ pick : List Char → Option String,
      generatedFiles log (.ofProject source build cache) =
        (log.toList.splitOn '\n').filterMap pick ∧
      (∀ line out, pick line = some out ↔ ∃ file output, Calls line file output ∧
        slashed source <:+: file.toList ∧
        (∀ dir, Fetched cache dir → ¬ dir.toList <:+: file.toList) ∧ Path.join build output = out) ∧
      ∀ line, (∀ file output, Calls line file output → Telling source cache file) →
        ∀ out, pick line = some out ↔ ∃ file output, Calls line file output ∧
          Path.Inside source file ∧ (∀ dir, Fetched cache dir → ¬ Path.Inside dir file) ∧
          Path.join build output = out := by
  refine ⟨_, generatedFiles_eq log _, fun _ _ => output?_ofProject_iff, fun line htelling out => ?_⟩
  rw [output?_ofProject_iff]
  refine exists₂_congr fun file output => and_congr_right fun hcall => ?_
  have htelling := htelling file output hcall
  rw [htelling.source_iff]
  refine and_congr_right fun _ => and_congr_left fun _ => ?_
  exact forall₂_congr fun dir hdir => not_congr (htelling.fetched_iff hdir)

/-- A call of `configure_file` by a file, as CMake writes it. -/
def callLine (file : String) : String :=
  "\x7b\"cmd\":\"configure_file\",\"file\":\"" ++ file ++ "\",\"args\":[\"a.in\",\"a\"]\x7d"

/-- A call in the project itself, which has fetched its dependencies. -/
theorem generatedFiles_ofProject_own :
    generatedFiles (callLine "/w/m")
      (.ofProject "/w" "/b" [("FETCHCONTENT_BASE_DIR", "/b/_deps")]) = ["/b/a"] := by
  obtain ⟨pick, hlog, -, htelling⟩ := generatedFiles_ofProject (callLine "/w/m") "/w" "/b"
    [("FETCHCONTENT_BASE_DIR", "/b/_deps")]
  have hparse : TraceEntry.parse (callLine "/w/m").toList =
      .ok { command := "configure_file", file := "/w/m", args := ["a.in", "a"] } := by
    decide +kernel
  have hfetched : ∀ dir, Fetched [("FETCHCONTENT_BASE_DIR", "/b/_deps")] dir → dir = "/b/_deps" :=
    fun dir hdir => (Option.some.inj hdir.1).symm
  have hpick : pick (callLine "/w/m").toList = some "/b/a" := by
    refine (htelling _ ?_ "/b/a").2 ⟨"/w/m", "a", ?_, by decide, ?_, by decide⟩
    · intro file output hcall
      obtain ⟨rfl, -⟩ := hcall.eq_of_parse hparse
      refine ⟨⟨["w", "m"], by decide, rfl⟩, ⟨["w"], by decide, rfl⟩, by decide,
        fun _ => by decide, ?_, ?_⟩
      · intro dir hdir
        rw [hfetched dir hdir]
        exact ⟨["b", "_deps"], by decide, rfl⟩
      · intro dir hdir hinfix
        rw [hfetched dir hdir] at hinfix
        exact absurd hinfix (by decide)
    · obtain ⟨v, hdocument, hmeans⟩ := TraceEntry.parse_eq_ok_iff.1 hparse
      exact ⟨v, _, "a.in", [], hdocument, hmeans, rfl, rfl, rfl⟩
    · intro dir hdir
      rw [hfetched dir hdir]
      decide
  rw [hlog, List.splitOn_eq_singleton (by decide), List.filterMap_cons_some hpick]
  rfl

/-- A sibling of the source directory whose name goes on after the directory's is taken for it. -/
theorem generatedFiles_sibling :
    generatedFiles (callLine "/w/src2/CMakeLists.txt") (.ofProject "/w/src" "/w/b" []) =
      ["/w/b/a"] ∧
    Path.Normal "/w/src" ∧ Path.Normal "/w/b" ∧
    ∀ file output, Calls (callLine "/w/src2/CMakeLists.txt").toList file output →
      ¬ Path.Inside "/w/src" file := by
  refine ⟨by decide +kernel, ⟨["w", "src"], by decide, rfl⟩, ⟨["w", "b"], by decide, rfl⟩, ?_⟩
  intro file output hcall
  obtain ⟨rfl, -⟩ := hcall.eq_of_parse
    (e := ⟨"configure_file", "/w/src2/CMakeLists.txt", ["a.in", "a"]⟩) (by decide +kernel)
  decide

end LintHooks.CMake
