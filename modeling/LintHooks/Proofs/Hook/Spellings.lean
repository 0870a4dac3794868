import LintHooks.Proofs.Hook.Targets
set_option autoImplicit false

/-!
# Hooks: spellings of target files

One file can be named by several texts: from the working directory or from the root, with dots or
without.  Target files are told apart by their texts.  So what is named by several texts is a target
once for each of them, and a file that the command line names from the working directory and the
database from the root is one twice.

The main result is `spellings_prepared`.  That each text is a target once is known of files that are
added (`files_of_prepare`), and a list without doubles names no place twice just if its places are
different.  Where that fails is a question about paths.  Texts without dots that mean one place are
the same from the root on (`place_eq_iff`), so that a text which is relative and one from the root
have to be there for it (`place_injective_iff`).  `prepared_twice` has such a pair.
-/

namespace LintHooks

namespace Path

variable {dir a b : String}

/-- The place that a text means from a directory: the components that it has there. -/
def place (dir file : String) : List Component := components (join dir file)

theorem eq_of_components (ha : Normal a) (hb : Normal b) (h : components a = components b) :
    a = b := by
  obtain ⟨names, hnames, rfl⟩ := ha
  obtain ⟨names', hnames', rfl⟩ := hb
  rw [components_render hnames, components_render hnames', List.cons.injEq] at h
  rw [(List.map_inj_right fun _ _ => Component.name.inj).1 h.2]

/-- From one directory two relative paths lead to different ones. -/
theorem join_inj (ha : isAbsolute a = false) (hb : isAbsolute b = false)
    (h : join dir a = join dir b) : a = b := by
  simp only [join, ha, hb, Bool.false_eq_true, if_false] at h
  split at h
  · exact (String.append_right_inj dir).1 h
  · exact (String.append_right_inj (dir ++ "/")).1 h

theorem isAbsolute_of_normal (h : Normal a) : isAbsolute a = true := by
  obtain ⟨names, -, rfl⟩ := h
  exact isAbsolute_render names

/-- Texts without dots and doubled separators mean the same place only where one of them is the
other one seen from the directory. -/
theorem place_eq_iff (ha : Normal (join dir a)) (hb : Normal (join dir b)) :
    place dir a = place dir b ↔ a = b ∨ a = join dir b ∨ b = join dir a := by
  constructor
  · intro h
    have hjoin : join dir a = join dir b := eq_of_components ha hb h
    cases habs : isAbsolute a with
    | true =>
      rw [join_of_isAbsolute habs] at hjoin
      exact .inr (.inl hjoin)
    | false =>
      cases hbbs : isAbsolute b with
      | true =>
        rw [join_of_isAbsolute hbbs] at hjoin
        exact .inr (.inr hjoin.symm)
      | false => exact .inl (join_inj habs hbbs hjoin)
  · unfold place
    rintro (rfl | rfl | rfl)
    · rfl
    · rw [join_of_isAbsolute (isAbsolute_of_normal hb)]
    · rw [join_of_isAbsolute (isAbsolute_of_normal ha)]

/-- So such texts mean different places if no path from the root stands beside a relative one for
it. -/
theorem place_injective_iff {files : List String} (hn : ∀ file ∈ files, Normal (join dir file)) :
    (∀ a ∈ files, ∀ b ∈ files, place dir a = place dir b → a = b) ↔
      ∀ file ∈ files, isAbsolute file = false → join dir file ∉ files := by
  constructor
  · intro hone file hfile hrelative hjoin
    have hsame : file = join dir file :=
      hone file hfile _ hjoin ((place_eq_iff (hn file hfile) (hn _ hjoin)).2 (.inr (.inr rfl)))
    have habsolute := isAbsolute_of_normal (hn file hfile)
    rw [← hsame, hrelative] at habsolute
    cases habsolute
  · intro hapart a ha b hb hplace
    have hrelative : ∀ {a b}, a ∈ files → b ∈ files → b = join dir a → a = b := by
      intro a b ha hb hab
      cases habsolute : isAbsolute a with
      | true => rw [hab, join_of_isAbsolute habsolute]
      | false => exact absurd (hab ▸ hb) (hapart a ha habsolute)
    rcases (place_eq_iff (hn a ha) (hn b hb)).1 hplace with hab | hab | hab
    · exact hab
    · exact (hrelative hb ha hab).symm
    · exact hrelative ha hb hab

end Path

namespace Runner

variable {hook : Hook} {i : Invocation} {s : Settings} {launcher : Launcher} {h h₁ h₂ : Host}
  {made r : Runner}

/-- Of all texts that name a target file, each one is a target once.  The targets that mean one
place are the different texts for it among these, so no place is linted twice if and only if every
place has one text.  Where the texts have neither dots nor doubled separators, that is broken only
by a relative text of a file whose path from the root is there as well. -/
theorem spellings_prepared (hmade : (ofInvocation hook i s).runOn launcher h = (.ok made, h₁))
    (hprepared : (prepare hook).runOn made launcher h₁ = ((.ok (), r), h₂)) :
    ∃ listed named, TakesIn hook made launcher h₁ r listed ∧
      named = (i.files ++ if hook ∈ [.clangTidy, .includeWhatYouUse] then
        i.ddash.filter h₁.isFile else i.ddash).filter hook.handles ++
          (listed ++ r.project.configuredFiles) ∧
      r.files = named.eraseDups ∧
      ∀ dir,
        (∀ file, r.files.filter (Path.place dir · = Path.place dir file) =
          (named.filter (Path.place dir · = Path.place dir file)).eraseDups) ∧
        ((r.files.map (Path.place dir)).Nodup ↔
          ∀ a ∈ named, ∀ b ∈ named, Path.place dir a = Path.place dir b → a = b) ∧
        ((∀ file ∈ named, Path.Normal (Path.join dir file)) →
          ((r.files.map (Path.place dir)).Nodup ↔
            ∀ file ∈ named, Path.isAbsolute file = false → Path.join dir file ∉ named)) := by
  obtain ⟨tool, project, hknown, hmadeEq⟩ := ofInvocation_ok hmade
  have hknown : made.project.configuredFiles = [] := by
    rw [hmadeEq]
    exact hknown
  obtain ⟨listed, hfiles, htakes⟩ := files_of_prepare hknown hprepared
  refine ⟨listed, _, htakes, rfl, ?_⟩
  generalize hnamed : (i.files ++ if hook ∈ [.clangTidy, .includeWhatYouUse] then
    i.ddash.filter h₁.isFile else i.ddash).filter hook.handles ++
      (listed ++ r.project.configuredFiles) = named
  have hadded : r.files = Hook.addFiles [] named := by
    rw [hfiles, hmadeEq, ← hnamed, Hook.targets, Hook.addFiles_addFiles, Hook.fileArgs_eq]
  have hmem : ∀ file, file ∈ r.files ↔ file ∈ named := by
    intro file
    rw [hadded, Hook.nil_addFiles, List.mem_eraseDups]
  have hnodup : r.files.Nodup := by
    rw [hadded]
    exact nodup_addFiles named List.nodup_nil
  have honce : ∀ dir, (r.files.map (Path.place dir)).Nodup ↔
      ∀ a ∈ named, ∀ b ∈ named, Path.place dir a = Path.place dir b → a = b := by
    intro dir
    simp only [List.nodup_map_iff_inj_on hnodup, hmem]
  refine ⟨by rw [hadded, Hook.nil_addFiles], fun dir => ⟨fun file => ?_, honce dir, fun hn => ?_⟩⟩
  · rw [hadded, Hook.filter_addFiles, List.filter_nil, Hook.nil_addFiles]
  · rw [honce dir]
    exact Path.place_injective_iff hn

/-- At the desk one file is named from the working directory and listed from the root, and it is a
target twice. -/
theorem prepared_twice :
    (ofInvocation .clangTidy Desk.invocation Desk.settings).runOn Desk.still Desk.host =
      (.ok Desk.made, Desk.host) ∧
    ∃ r, (prepare .clangTidy).runOn Desk.made Desk.still Desk.host = ((.ok (), r), Desk.host) ∧
      "a.c" ∈ r.files ∧ "/w/a.c" ∈ r.files ∧
      Path.place Desk.host.workPath "a.c" = Path.place Desk.host.workPath "/w/a.c" ∧
      ¬ (r.files.map (Path.place Desk.host.workPath)).Nodup := by
  refine ⟨Desk.ofInvocation_made, _, Desk.prepare_made, ?_⟩
  decide

/-- So two of the texts that name the files there mean the same place. -/
theorem spellings_prepared_desk : ∃ listed named : List String,
    TakesIn .clangTidy Desk.made Desk.still Desk.host
      { Desk.made with files := ["a.c", "x.cpp", "/w/a.c"] } listed ∧
    ["a.c", "x.cpp", "/w/a.c"] = named.eraseDups ∧
    ¬ ∀ a ∈ named, ∀ b ∈ named, Path.place "/w" a = Path.place "/w" b → a = b := by
  obtain ⟨listed, named, htakes, -, hfiles, hplaces⟩ :=
    spellings_prepared Desk.ofInvocation_made Desk.prepare_made
  obtain ⟨-, honce, -⟩ := hplaces "/w"
  refine ⟨listed, named, htakes, hfiles, ?_⟩
  rw [← honce]
  decide

end Runner

end LintHooks
