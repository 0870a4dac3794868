import LintHooks.CMake.Arguments
import LintHooks.Host.Stateful
import LintHooks.Proofs.Settings.Table
import LintHooks.Proofs.Toml.Pairs
import LintHooks.Settings.Dump
import LintHooks.Settings.Load
set_option autoImplicit false

/-!
# Settings: what is dumped is read back

A dump has one line for every key that is set, so its table holds each key once, with
the value of the key.  What a table is read as is said by `ofTable_spec`: all entries of
this one give keys values of their sorts, and the values that they give are the ones that
were written.

The dump leaves out the values that an unset key has as well, and nothing that asks
for a setting can tell the difference.

The main result is `read_dump`.  One part of it is `ofToml?_write`, that what is written is read
back: the text is a document of plain pairs (`parse?_write`), and its table is read by
`ofTable_spec` (`ofTable_entries`).  The other part knows nothing of texts.  What is left without
the values that go without saying is `Pruned` (`pruned_stripDefaults`), pruned settings give the
`SameAnswers` (`Pruned.sameAnswers`), and pruning them again changes nothing
(`stripDefaults_stripDefaults`).
-/

namespace LintHooks.Settings

variable {s : Settings} {k : Key} {v : Toml.Value}

/-! ## Settings as a table -/

/-- What is written for a key denotes its value. -/
theorem written_writeValue? (s : Settings) (k : Key) :
    (s.writeValue? k = none ∧ s.value? k = none)
      ∨ ∃ w v, s.writeValue? k = some w ∧ s.value? k = some v ∧ Toml.Written w v := by
  cases k with
  | flag k =>
    rw [writeValue?, value?]
    cases s.flags k with
    | none => exact Or.inl ⟨rfl, rfl⟩
    | some b => exact Or.inr ⟨_, _, rfl, rfl, Toml.written_truth b⟩
  | text k =>
    rw [writeValue?, value?]
    cases s.texts k with
    | none => exact Or.inl ⟨rfl, rfl⟩
    | some t => exact Or.inr ⟨_, _, rfl, rfl, Toml.written_text t⟩
  | list k =>
    rw [writeValue?, value?]
    cases s.lists k with
    | none => exact Or.inl ⟨rfl, rfl⟩
    | some xs => exact Or.inr ⟨_, _, rfl, rfl, Toml.written_list xs⟩

/-- The line of a key that is set. -/
def line? (s : Settings) (k : Key) : Option Toml.PairLine :=
  match s.writeValue? k, s.value? k with
  | some w, some v => some ⟨k.name, w, v⟩
  | _, _ => none

theorem line?_eq_some {p : Toml.PairLine} (h : s.line? k = some p) :
    p.key = k.name ∧ s.value? k = some p.value ∧ Toml.Written p.written p.value := by
  rcases s.written_writeValue? k with ⟨hw, hv⟩ | ⟨w, v, hw, hv, hread⟩
  · simp only [line?, hw] at h
    cases h
  · simp only [line?, hw, hv] at h
    cases h
    exact ⟨rfl, hv, hread⟩

theorem line?_of_value? (h : s.value? k = some v) : ∃ p, s.line? k = some p ∧ p.value = v := by
  rcases s.written_writeValue? k with ⟨-, hv⟩ | ⟨w, v', hw, hv, -⟩
  · rw [h] at hv
    cases hv
  · rw [h] at hv
    cases hv
    exact ⟨⟨k.name, w, v⟩, by simp only [line?, hw, h], rfl⟩

theorem writeLine_eq (s : Settings) (k : Key) :
    s.writeLine k = (s.line? k).toList.flatMap Toml.PairLine.text := by
  rcases s.written_writeValue? k with ⟨hw, hv⟩ | ⟨w, v, hw, hv, -⟩
  · simp only [writeLine, line?, hw]
    rfl
  · simp only [writeLine, line?, hw, hv, Option.toList_some, List.flatMap_singleton]
    rfl

/-- The lines of all keys that are set. -/
def lines (s : Settings) : List Toml.PairLine := Key.all.filterMap s.line?

theorem write_eq (s : Settings) : s.write = s.lines.flatMap Toml.PairLine.text := by
  rw [write, lines]
  induction Key.all with
  | nil => rfl
  | cons k ks ih =>
    rw [List.flatMap_cons, ih, writeLine_eq]
    cases h : s.line? k <;> simp [h]

theorem mem_lines {p : Toml.PairLine} : p ∈ s.lines ↔ ∃ k, s.line? k = some p := by
  rw [lines, List.mem_filterMap]
  exact ⟨fun ⟨k, _, h⟩ => ⟨k, h⟩, fun ⟨k, h⟩ => ⟨k, Key.mem_all k, h⟩⟩

/-! ## Names of keys -/

theorem bareKey_name (k : Key) : Toml.BareKey k.name := by
  have hall : ∀ k ∈ Key.all, k.name.toList ≠ [] ∧ k.name.toList.all Toml.isBare = true := by decide
  obtain ⟨hne, hbare⟩ := hall k (Key.mem_all k)
  exact ⟨hne, List.all_eq_true.1 hbare⟩

/-! ## Reading the table -/

/-- The entries of the table that is written. -/
def entries (s : Settings) : Toml.Table := s.lines.map fun p => (p.key, p.value)

theorem mem_entries {e : String × Toml.Value} :
    e ∈ s.entries ↔ ∃ k, e.1 = k.name ∧ s.value? k = some e.2 := by
  rw [entries, List.mem_map]
  constructor
  · rintro ⟨p, hp, rfl⟩
    obtain ⟨k, hk⟩ := mem_lines.1 hp
    exact ⟨k, (line?_eq_some hk).1, (line?_eq_some hk).2.1⟩
  · rintro ⟨k, hk, hv⟩
    obtain ⟨p, hp, he⟩ := line?_of_value? hv
    exact ⟨p, mem_lines.2 ⟨k, hp⟩, Prod.ext ((line?_eq_some hp).1.trans hk.symm) he⟩

/-- The lines of some keys are in the order of the keys. -/
theorem keys_sublist (s : Settings) (ks : List Key) :
    ((ks.filterMap s.line?).map Toml.PairLine.key).Sublist (ks.map Key.name) := by
  induction ks with
  | nil => exact List.Sublist.slnil
  | cons k ks ih =>
    cases h : s.line? k with
    | none => simpa [h] using ih.cons k.name
    | some p => simpa [h, (line?_eq_some h).1] using ih

theorem nodup_lines (s : Settings) : (s.lines.map Toml.PairLine.key).Nodup := by
  have hnames : (Key.all.map Key.name).Nodup := by decide
  exact (s.keys_sublist Key.all).nodup hnames

theorem nodup_entries (s : Settings) : (s.entries.map Prod.fst).Nodup := by
  rw [entries, List.map_map]
  exact s.nodup_lines

theorem parse?_write (s : Settings) : Toml.parse? s.write = some s.entries := by
  have hvalid : ∀ p ∈ s.lines, p.Valid := by
    intro p hp
    obtain ⟨k, hk⟩ := mem_lines.1 hp
    obtain ⟨hkey, -, hread⟩ := line?_eq_some hk
    exact ⟨hkey ▸ bareKey_name k, hread⟩
  rw [write_eq, Toml.parse?_lines hvalid s.nodup_lines, entries]

theorem withoutTables_entries (s : Settings) : s.entries.withoutTables = s.entries := by
  apply List.filter_eq_self.2
  intro e he
  obtain ⟨k, -, hv⟩ := mem_entries.1 he
  obtain ⟨key, v⟩ := e
  cases k <;> obtain ⟨x, -, rfl⟩ := Option.map_eq_some_iff.1 hv <;> rfl

/-- The values of the keys of some settings are of the sorts of the keys, and have no dates or
times in them. -/
theorem fits_of_value? (h : s.value? k = some v) : Fits k v ∧ v.settled = v := by
  cases k with
  | flag f =>
    obtain ⟨b, -, rfl⟩ := Option.map_eq_some_iff.1 h
    exact ⟨⟨b, rfl⟩, rfl⟩
  | text t =>
    obtain ⟨x, -, rfl⟩ := Option.map_eq_some_iff.1 h
    exact ⟨⟨x, rfl⟩, rfl⟩
  | list l =>
    obtain ⟨xs, -, rfl⟩ := Option.map_eq_some_iff.1 h
    have hsettled : (Toml.Value.array (xs.map .text)).settled = .array (xs.map .text) := by
      rw [Toml.Value.settled, List.map_map]
      rfl
    exact ⟨⟨xs, hsettled⟩, hsettled⟩

theorem lookup_entries (s : Settings) (k : Key) : s.entries.lookup k.name = s.value? k := by
  apply Option.ext
  intro v
  constructor
  · intro h
    obtain ⟨j, hj, hv⟩ := mem_entries.1 (Toml.mem_of_lookup h)
    rwa [name_injective hj]
  · intro h
    exact Toml.lookup_of_mem s.nodup_entries (mem_entries.2 ⟨k, rfl, h⟩)

/-- The table of some settings is read as those settings. -/
theorem ofTable_entries (s : Settings) : ofTable s.entries = .ok s := by
  have hread := ofTable_spec s.nodup_entries
  cases h : ofTable s.entries with
  | ok c =>
    rw [h] at hread
    have hc : c = s := by
      apply ext_value?
      intro k
      rw [hread.2 k, lookup_entries]
      cases hv : s.value? k with
      | none => rfl
      | some v => exact congrArg some (fits_of_value? hv).2
    rw [hc]
  | error r =>
    rw [h] at hread
    obtain ⟨e, he, hoffends, -⟩ := hread
    obtain ⟨k, hk, hv⟩ := mem_entries.1 he
    exact absurd hoffends (Proper.not_offends ⟨k, hk, (fits_of_value? hv).1⟩ r)

/-- What is written for some settings is read back as those settings. -/
theorem ofToml?_write (s : Settings) : ofToml? (String.ofList s.write) .root = .ok (some s) := by
  rw [ofToml?, String.toList_ofList, parse?_write]
  simp only [Section.find?, withoutTables_entries, ofTable_entries]

/-! ## What goes without saying -/

/-- `t` is `s` with the keys unset whose value an unset key has too, and no others. -/
structure Pruned (s t : Settings) : Prop where
  flags : ∀ k ≠ .automaticDiscovery,
    t.flags k = if s.flags k = some false then none else s.flags k
  discovery : t.flags .automaticDiscovery =
    if s.flags .automaticDiscovery = some true then none else s.flags .automaticDiscovery
  texts : ∀ k ≠ .sourceDir, t.texts k = s.texts k
  sourceDir : t.texts .sourceDir =
    if ∃ p, s.texts .sourceDir = some p ∧ Path.components p = Path.components "." then none
    else s.texts .sourceDir
  lists : ∀ k, t.lists k = if s.lists k = some [] then none else s.lists k

/-- Everything that is asked of settings is answered alike.  The flag for discovery is the only
one that is true where it is unset, and it is only ever asked for by `automaticDiscovery`. -/
structure SameAnswers (s t : Settings) : Prop where
  sourceDir : Path.components t.sourceDir = Path.components s.sourceDir
  buildDirs : t.buildDirs = s.buildDirs
  automaticDiscovery : t.automaticDiscovery = s.automaticDiscovery
  flag : ∀ k ≠ .automaticDiscovery, t.flag k = s.flag k
  list : ∀ k, t.list k = s.list k
  arguments : ∀ os, CMake.arguments t os = CMake.arguments s os

theorem pruned_stripDefaults (s : Settings) : Pruned s s.stripDefaults where
  flags k hk := by
    simp only [stripDefaults, isDefaultFlag, beq_eq_false_iff_ne.2 hk]
    cases s.flags k with
    | none => rfl
    | some b => cases b <;> rfl
  discovery := by
    simp only [stripDefaults, isDefaultFlag]
    cases s.flags .automaticDiscovery with
    | none => rfl
    | some b => cases b <;> rfl
  texts k hk := by
    simp only [stripDefaults, beq_eq_false_iff_ne.2 hk, Bool.false_and, Bool.not_false]
    cases s.texts k <;> rfl
  sourceDir := by
    simp only [stripDefaults, Path.same, defaultSourceDir]
    cases s.texts .sourceDir with
    | none => rfl
    | some p =>
      by_cases h : Path.components p = Path.components "."
      · simp [h]
      · simp [h]
  lists k := by
    simp only [stripDefaults]
    cases s.lists k with
    | none => rfl
    | some xs => cases xs <;> rfl

variable {t : Settings}

theorem Pruned.list_eq (h : Pruned s t) (k : ListKey) : t.list k = s.list k := by
  rw [Settings.list, Settings.list, h.lists k]
  split
  · next hs => rw [hs]; rfl
  · rfl

theorem Pruned.flag_eq (h : Pruned s t) {k : FlagKey} (hk : k ≠ .automaticDiscovery) :
    t.flag k = s.flag k := by
  rw [Settings.flag, Settings.flag, h.flags k hk]
  split
  · next hs => rw [hs]; rfl
  · rfl

theorem Pruned.sourceDir_eq (h : Pruned s t) :
    Path.components t.sourceDir = Path.components s.sourceDir := by
  rw [Settings.sourceDir, Settings.sourceDir, h.sourceDir]
  split
  · next hs =>
    obtain ⟨p, hp, hdot⟩ := hs
    rw [hp]
    exact hdot.symm
  · rfl

theorem Pruned.automaticDiscovery_eq (h : Pruned s t) :
    t.automaticDiscovery = s.automaticDiscovery := by
  rw [Settings.automaticDiscovery, Settings.automaticDiscovery, h.discovery]
  split
  · next hs => rw [hs]; rfl
  · rfl

theorem Pruned.arguments_eq (h : Pruned s t) (os : String) :
    CMake.arguments t os = CMake.arguments s os := by
  have hf {k : FlagKey} (hk : k ≠ .automaticDiscovery) (arg : String) :
      CMake.flagArg t k arg = CMake.flagArg s k arg := by
    rw [CMake.flagArg, CMake.flagArg, h.flag_eq hk]
  have ht {k : TextKey} (hk : k ≠ .sourceDir) (option : String) :
      CMake.textArg t k option = CMake.textArg s k option := by
    rw [CMake.textArg, CMake.textArg, h.texts k hk]
  have hp : t.platformArgs os = s.platformArgs os := by
    simp only [platformArgs, h.list_eq]
  simp only [CMake.arguments, h.list_eq, hp, hf (k := .devErrors) (by decide),
    hf (k := .noDevErrors) (by decide), hf (k := .devWarnings) (by decide),
    hf (k := .noDevWarnings) (by decide), ht (k := .generator) (by decide),
    ht (k := .toolset) (by decide), ht (k := .platform) (by decide),
    ht (k := .preset) (by decide)]

theorem Pruned.sameAnswers (h : Pruned s t) : SameAnswers s t where
  sourceDir := h.sourceDir_eq
  buildDirs := h.list_eq .buildDir
  automaticDiscovery := h.automaticDiscovery_eq
  flag _ hk := h.flag_eq hk
  list := h.list_eq
  arguments := h.arguments_eq

/-- Nothing is left that goes without saying. -/
theorem stripDefaults_stripDefaults (s : Settings) :
    s.stripDefaults.stripDefaults = s.stripDefaults := by
  apply ext' <;> intro k <;>
    simp only [stripDefaults, Option.filter_filter, Bool.and_self]

/-! ## The round trip -/

/-- Reading a text that holds a layer gives that layer, whatever is told on the way. -/
theorem runOn_read_of_ofToml? {content : String} {part : Section} {layer : Option Settings}
    (h : ofToml? content part = .ok layer) (origin : String) (launcher : Launcher) (host : Host) :
    ((read content part origin).runOn launcher host).1 = .ok layer := by
  have told (message : String) (host : Host) :
      ((do Action.debug .settings message; pure layer).runOn launcher host).1 = .ok layer := by
    obtain ⟨_, ht⟩ := Action.runOn_tell launcher host .settings .debug message
    rw [Action.debug, Action.runOn_bind, ht]
    rfl
  unfold Settings.read
  rw [h]
  cases layer with
  | none => exact told _ host
  | some s => exact told _ host

/-- A dump always succeeds and is read back, in the root of a document from anywhere, as the
settings without what goes without saying.  Those answer every question alike and have the same
dump. -/
theorem read_dump (s : Settings) (origin : String) (launcher : Launcher) (host : Host) :
    ∃ t : Settings, ((read s.dump .root origin).runOn launcher host).1 = .ok (some t)
      ∧ Pruned s t ∧ SameAnswers s t ∧ t.dump = s.dump := by
  have hpruned := pruned_stripDefaults s
  refine ⟨s.stripDefaults, ?_, hpruned, hpruned.sameAnswers, ?_⟩
  · exact runOn_read_of_ofToml? (ofToml?_write s.stripDefaults) origin launcher host
  · rw [dump, dump, stripDefaults_stripDefaults]

end LintHooks.Settings
