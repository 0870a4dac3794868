import LintHooks.Proofs.Host.Told
import LintHooks.Settings.Load
import Mathlib.Data.List.Forall2
set_option autoImplicit false

/-!
# Settings: which layer a key comes from

Loading reads the files one after the other and ends early at the first one that is of no use,
whatever stands in the others.  What is left of a run that does not end early are the layers of
its files, and merging them keeps of each key what the uppermost layer says that says anything.
Only the lists of the command line are added to what is below them.

The main result is `loadLayered_precedence`, for every run of the loading.  For one file the run is
described by `runOn_load`, and by induction for all of them (`runOn_mapM_load`): what has been told
on the way makes no difference to the files behind (`faulty_told`, `holds_told`).  That merging
keeps the uppermost layer is shown once for any key whatever it holds (`foldl_overlay`), and
`layered_merge` uses that for each sort of keys.
-/

namespace LintHooks

/-! ## What a file holds -/

namespace LayerFile

/-- Why a file ends the loading. -/
inductive Faulty (h : Host) (file : LayerFile) : Prop where
  | missing : h.isFile file.path = false → file.mandatory = true → Faulty h file
  | unreadable (e : OsError) : h.isFile file.path = true → h.readText file.path = .error e →
    Faulty h file
  | unparsable (content : String) (e : LayerError) : h.isFile file.path = true →
    h.readText file.path = .ok content → Settings.ofToml? content file.part = .error e →
    Faulty h file

/-- The layer of a file; a file that need not be there, and a document without the table that is
looked for, have none. -/
inductive Holds (h : Host) (file : LayerFile) : Option Settings → Prop where
  | missing : h.isFile file.path = false → file.mandatory = false → Holds h file none
  | present (content : String) (layer : Option Settings) : h.isFile file.path = true →
    h.readText file.path = .ok content → Settings.ofToml? content file.part = .ok layer →
    Holds h file layer

variable {h : Host} {file : LayerFile} {layer : Option Settings}

/-- What has been told makes no difference to a file. -/
theorem faulty_told (s : String) : file.Faulty (h.told s) ↔ file.Faulty h := by
  constructor
  · rintro (⟨hf, hm⟩ | ⟨e, hf, hr⟩ | ⟨content, e, hf, hr, ht⟩)
    · exact .missing hf hm
    · exact .unreadable e hf hr
    · exact .unparsable content e hf hr ht
  · rintro (⟨hf, hm⟩ | ⟨e, hf, hr⟩ | ⟨content, e, hf, hr, ht⟩)
    · exact .missing hf hm
    · exact .unreadable e hf hr
    · exact .unparsable content e hf hr ht

theorem holds_told (s : String) : file.Holds (h.told s) layer ↔ file.Holds h layer := by
  constructor
  · rintro (⟨hf, hm⟩ | ⟨content, _, hf, hr, ht⟩)
    · exact .missing hf hm
    · exact .present content layer hf hr ht
  · rintro (⟨hf, hm⟩ | ⟨content, _, hf, hr, ht⟩)
    · exact .missing hf hm
    · exact .present content layer hf hr ht

theorem Holds.not_faulty (hl : file.Holds h layer) : ¬ file.Faulty h := by
  rintro (⟨hf, hm⟩ | ⟨e, hf, hr⟩ | ⟨content, e, hf, hr, ht⟩)
  · cases hl with
    | missing _ hm' => exact absurd (hm'.symm.trans hm) Bool.false_ne_true
    | present _ _ hf' _ _ => exact absurd (hf.symm.trans hf') Bool.false_ne_true
  · cases hl with
    | missing hf' _ => exact absurd (hf'.symm.trans hf) Bool.false_ne_true
    | present _ _ _ hr' _ => exact absurd (hr.symm.trans hr') nofun
  · cases hl with
    | missing hf' _ => exact absurd (hf'.symm.trans hf) Bool.false_ne_true
    | present _ _ _ hr' ht' =>
      obtain rfl := Except.ok.inj (hr.symm.trans hr')
      exact absurd (ht.symm.trans ht') nofun

end LayerFile

namespace Settings

/-! ## Loading files -/

variable (launcher : Launcher)

theorem runOn_read (content : String) (part : Section) (origin : String) (h : Host) :
    ∃ s, (read content part origin).runOn launcher h =
      ((ofToml? content part).mapError fun e => .report (e.report origin), h.told s) := by
  have told {α : Type} (message : String) (t : Action α) (r : Except Failure α)
      (ht : ∀ h, t.runOn launcher h = (r, h)) :
      ∃ s, (do Action.debug .settings message; t).runOn launcher h = (r, h.told s) := by
    obtain ⟨s, hs⟩ := Action.runOn_debug launcher h .settings message
    refine ⟨s, ?_⟩
    rw [Action.runOn_bind, hs]
    exact ht _
  unfold Settings.read
  cases ofToml? content part with
  | ok layer =>
    cases layer with
    | none => exact told _ _ _ fun _ => rfl
    | some s => exact told _ _ _ fun _ => rfl
  | error e =>
    cases e with
    | malformed =>
      refine ⟨"", ?_⟩
      rw [h.told_empty]
      rfl
    | rejected r => exact told _ _ _ fun _ => rfl

/-- Loading a file fails because of the file or gives its layer, and all that it leaves behind is
what it has told. -/
theorem runOn_load (file : LayerFile) (h : Host) :
    ∃ r s, (load file).runOn launcher h = (r, h.told s) ∧
      match r with
      | .error _ => file.Faulty h
      | .ok layer => file.Holds h layer := by
  rw [load, Action.runOn_bind, Action.runOn_host]
  dsimp only
  split
  · next hf =>
    split
    · next content hr =>
      obtain ⟨s, hs⟩ := runOn_read launcher content file.part file.path h
      refine ⟨_, s, hs, ?_⟩
      cases ht : ofToml? content file.part with
      | error e => exact .unparsable content e hf hr ht
      | ok layer => exact .present content layer hf hr ht
    · next e hr => exact ⟨.error _, "", by rw [h.told_empty]; rfl, .unreadable e hf hr⟩
  · next hf =>
    have hf : h.isFile file.path = false := Bool.eq_false_iff.2 hf
    split
    · next hm => exact ⟨.error _, "", by rw [h.told_empty]; rfl, .missing hf hm⟩
    · next hm =>
      obtain ⟨s, hs⟩ := Action.runOn_debug launcher h .settings
        ("TOML file " ++ file.path ++ " does not exist (not an error)")
      refine ⟨.ok none, s, ?_, .missing hf (Bool.eq_false_iff.2 hm)⟩
      rw [Action.runOn_bind, hs]
      rfl

/-- Loading several files fails because of one of them or gives the layer of each. -/
theorem runOn_mapM_load (files : List LayerFile) (h : Host) :
    ∃ r s, (files.mapM load).runOn launcher h = (r, h.told s) ∧
      match r with
      | .error _ => ∃ file ∈ files, file.Faulty h
      | .ok layers => List.Forall₂ (LayerFile.Holds h) files layers := by
  induction files generalizing h with
  | nil => exact ⟨.ok [], "", by rw [h.told_empty]; rfl, .nil⟩
  | cons file files ih =>
    obtain ⟨r, s, hr, hfile⟩ := runOn_load launcher file h
    rw [List.mapM_cons, Action.runOn_bind, hr]
    cases r with
    | error f => exact ⟨.error f, s, rfl, file, List.mem_cons_self, hfile⟩
    | ok layer =>
      obtain ⟨rs, t, hrs, hfiles⟩ := ih (h.told s)
      dsimp only
      rw [Action.runOn_bind, hrs, h.told_told]
      cases rs with
      | error f =>
        obtain ⟨bad, hmem, hbad⟩ := hfiles
        exact ⟨.error f, s ++ t, rfl, bad, List.mem_cons_of_mem file hmem,
          (LayerFile.faulty_told s).1 hbad⟩
      | ok layers =>
        have hholds : List.Forall₂ (LayerFile.Holds h) files layers :=
          hfiles.imp fun file layer => (LayerFile.holds_told s).1
        exact ⟨.ok (layer :: layers), s ++ t, rfl, .cons hfile hholds⟩

theorem not_faulty_of_holds {h : Host} {files : List LayerFile} {layers : List (Option Settings)}
    (hl : List.Forall₂ (LayerFile.Holds h) files layers) : ∀ file ∈ files, ¬ file.Faulty h := by
  induction hl with
  | nil => exact nofun
  | cons hfile _ ih =>
    intro file hmem
    rcases List.mem_cons.1 hmem with rfl | hmem
    · exact hfile.not_faulty
    · exact ih file hmem

/-! ## Merging layers -/

/-- What the first of several layers says that says anything about a key. -/
def firstSet {α : Type} (key : Settings → Option α) (layers : List (Option Settings)) : Option α :=
  layers.findSome? fun layer => layer.bind key

theorem firstSet_cons {α : Type} (key : Settings → Option α) (layer : Option Settings)
    (layers : List (Option Settings)) :
    firstSet key (layer :: layers) = (layer.bind key <|> firstSet key layers) := by
  rw [firstSet, List.findSome?_cons]
  cases layer.bind key <;> rfl

/-- Of layers that lie one over the other the last one that sets a key counts.  All sorts of keys
are alike in this. -/
theorem foldl_overlay {α : Type} (key : Settings → Option α)
    (hkey : ∀ lower upper : Settings, key (lower.overlay upper) = (key upper <|> key lower))
    (layers : List (Option Settings)) (s : Settings) :
    key ((layers.filterMap id).foldl overlay s) = (firstSet key layers.reverse <|> key s) := by
  induction layers generalizing s with
  | nil => rfl
  | cons layer layers ih =>
    rw [List.reverse_cons, firstSet, List.findSome?_append, ← firstSet]
    cases layer with
    | none =>
      have hnone : (none :: layers).filterMap id = layers.filterMap id :=
        List.filterMap_cons_none rfl
      rw [hnone, ih]
      simp
    | some upper =>
      have hsome : (some upper :: layers).filterMap id = upper :: layers.filterMap id :=
        List.filterMap_cons_some rfl
      rw [hsome, List.foldl_cons, ih, hkey]
      cases firstSet key layers.reverse <;> cases hu : key upper <;> simp [hu]

/-- The settings of a run by its layers, from the command line down to the table of the project. -/
structure Layered (cli : Settings) (named own project : Option Settings) (s : Settings) :
    Prop where
  flags : ∀ k, s.flags k = firstSet (·.flags k) [some cli, named, own, project]
  texts : ∀ k, s.texts k = firstSet (·.texts k) [some cli, named, own, project]
  unset : ∀ k, s.lists k = none ↔ ∀ layer ∈ [some cli, named, own, project],
    layer.bind (·.lists k) = none
  lists : ∀ k vs, s.lists k = some vs →
    vs = (firstSet (·.lists k) [named, own, project]).getD [] ++ (cli.lists k).getD []

theorem layered_merge (cli : Settings) (named own project : Option Settings) :
    Layered cli named own project (merge ([project, own, named].filterMap id) cli) := by
  have below {α : Type} (key : Settings → Option α) (hempty : key {} = none)
      (hkey : ∀ lower upper : Settings, key (lower.overlay upper) = (key upper <|> key lower)) :
      key (([project, own, named].filterMap id).foldl overlay {}) =
        firstSet key [named, own, project] := by
    rw [foldl_overlay key hkey, hempty]
    exact Option.orElse_eq_or.trans Option.or_none
  have lists (k : ListKey) : (merge ([project, own, named].filterMap id) cli).lists k =
      extendList (firstSet (·.lists k) [named, own, project]) (cli.lists k) :=
    congrArg (extendList · (cli.lists k)) (below (·.lists k) rfl fun _ _ => rfl)
  refine ⟨fun k => ?_, fun k => ?_, fun k => ?_, fun k vs hvs => ?_⟩
  · rw [firstSet_cons, ← below (·.flags k) rfl fun _ _ => rfl]
    rfl
  · rw [firstSet_cons, ← below (·.texts k) rfl fun _ _ => rfl]
    rfl
  · rw [lists, ← List.findSome?_eq_none_iff]
    cases hcli : cli.lists k <;> simp [extendList, firstSet, hcli]
  · rw [lists] at hvs
    cases hcli : cli.lists k with
    | none =>
      rw [hcli] at hvs
      have hbelow : firstSet (·.lists k) [named, own, project] = some vs := hvs
      rw [hbelow, Option.getD_some, Option.getD_none, List.append_nil]
    | some values =>
      rw [hcli] at hvs
      exact (Option.some.inj hvs).symm

/-! ## All layers -/

/-- What the files of a run hold.  Only the file that the command line names may be one more than
the two that are always looked for. -/
structure Sources (h : Host) (config : Option String) (named own project : Option Settings) :
    Prop where
  project : LayerFile.Holds h
    ⟨Path.join h.workPath "pyproject.toml", .table "tool.cmake_pc_hooks", false⟩ project
  own : LayerFile.Holds h ⟨Path.join h.workPath "cmake_pc_hooks.toml", .root, false⟩ own
  named : match config with
    | none => named = none
    | some path => LayerFile.Holds h ⟨Path.join h.workPath path, .root, true⟩ named

/-- The layers of the files of a run are those three. -/
theorem sources_of_holds {h : Host} {config : Option String} {layers : List (Option Settings)}
    (hl : List.Forall₂ (LayerFile.Holds h) (LayerFile.all h.workPath config) layers) :
    ∃ named own project, Sources h config named own project
      ∧ layers.filterMap id = [project, own, named].filterMap id := by
  cases hl with
  | @cons _ project _ _ hproject hl =>
    cases hl with
    | @cons _ own _ _ hown hl =>
      cases config with
      | none =>
        cases hl
        refine ⟨none, own, project, ⟨hproject, hown, rfl⟩, ?_⟩
        cases project <;> cases own <;> rfl
      | some path =>
        cases hl with
        | @cons _ named _ _ hnamed hl =>
          cases hl
          exact ⟨named, own, project, ⟨hproject, hown, hnamed⟩, rfl⟩

/-- Loading fails exactly where one of the files is faulty.  Where it does not fail, each key has
the value of the uppermost layer that sets it, and a list is continued by that of the command
line. -/
theorem loadLayered_precedence (launcher : Launcher) (h : Host) (config : Option String)
    (cli : Settings) :
    ((∃ f, ((loadLayered config cli).runOn launcher h).1 = .error f) ↔
        ∃ file ∈ LayerFile.all h.workPath config, file.Faulty h)
      ∧ ∀ s, ((loadLayered config cli).runOn launcher h).1 = .ok s →
        ∃ named own project, Sources h config named own project
          ∧ Layered cli named own project s := by
  obtain ⟨r, told, hr, hfiles⟩ := runOn_mapM_load launcher (LayerFile.all h.workPath config) h
  rw [loadLayered, Action.runOn_bind, Action.runOn_host]
  dsimp only
  rw [Action.runOn_bind, hr]
  cases r with
  | error f => exact ⟨⟨fun _ => hfiles, fun _ => ⟨f, rfl⟩⟩, nofun⟩
  | ok layers =>
    refine ⟨⟨nofun, fun ⟨file, hfile, hf⟩ => absurd hf (not_faulty_of_holds hfiles file hfile)⟩, ?_⟩
    intro s hs
    obtain rfl := Except.ok.inj hs
    obtain ⟨named, own, project, hsources, hlayers⟩ := sources_of_holds hfiles
    refine ⟨named, own, project, hsources, ?_⟩
    rw [hlayers]
    exact layered_merge cli named own project

end Settings

end LintHooks
