import LintHooks.Proofs.Settings.Precedence
import LintHooks.Proofs.Settings.Table
import LintHooks.Proofs.Text.Order
import LintHooks.Proofs.Toml.RootNames
set_option autoImplicit false

/-!
# Settings: what a document is read as

The root of a document counts without the keys that hold tables, and the table of `pyproject.toml`
counts whole.  Both are read by one rule, which knows nothing of the rest of the document: a table
is a layer if all of its entries are settings, and else the first entry that is none is reported.

The main result is `read_document`.  The rule is `ReadAs`.  That a section is read by it
(`readAs_readOn`) comes from what is known of tables (`ofTable_spec`), as no key comes twice in any
table of a document (`nodup_of_find?`).  `layersOf` has this for the root and for the section, with
what a key of the root holds (`tables_of_parse?`), and `readOn_congr` compares two documents:
sections with the same entries are read alike.
-/

namespace LintHooks.Settings

open Toml (Value)

variable {launcher : Launcher} {host : Host} {content origin : String} {part : Section}
  {document t t' : Toml.Table}

/-- What reading a section of a text that comes from `origin` ends with. -/
def readOn (launcher : Launcher) (host : Host) (origin content : String) (part : Section) :
    Except Failure (Option Settings) :=
  ((read content part origin).runOn launcher host).1

/-- What is reported about a table that is no layer. -/
def rejection (origin : String) (r : Rejection) : Failure :=
  .report (.config ("Invalid settings in " ++ origin ++ ": " ++ r.message) (some Hint.invalidToml))

/-! ## The table that is read -/

theorem readOn_none (hdoc : Toml.parse? content.toList = some document)
    (hpart : part.find? document = none) : readOn launcher host origin content part = .ok none := by
  obtain ⟨s, hread⟩ := runOn_read launcher content part origin host
  rw [readOn, hread, ofToml?, hdoc]
  simp only [hpart]
  rfl

theorem readOn_some (hdoc : Toml.parse? content.toList = some document)
    (hpart : part.find? document = some t) :
    readOn launcher host origin content part =
      ((ofTable t).map some).mapError (rejection origin) := by
  obtain ⟨s, hread⟩ := runOn_read launcher content part origin host
  rw [readOn, hread, ofToml?, hdoc]
  simp only [hpart]
  cases ofTable t with
  | ok c => rfl
  | error r => rfl

/-- Whether the keys of the path lead from one table to the next and in the end to `t`. -/
def HasSection (document t : Toml.Table) : Prop :=
  ∃ tool, document.lookup "tool" = some (.table tool) ∧
    tool.lookup "cmake_pc_hooks" = some (.table t)

theorem find?_projectSection :
    (Section.table projectSection).find? document = some t ↔ HasSection document t := by
  have hkeys : Section.keys projectSection = ["tool", "cmake_pc_hooks"] := by decide
  rw [Section.find?, hkeys]
  constructor
  · intro h
    rw [Toml.Table.descend?] at h
    split at h
    · next tool htool =>
      rw [Toml.Table.descend?] at h
      split at h
      · next inner hinner =>
        cases h
        exact ⟨tool, htool, hinner⟩
      · cases h
    · cases h
  · rintro ⟨tool, htool, hinner⟩
    simp only [Toml.Table.descend?, htool, hinner]

theorem find?_projectSection_none (h : ¬ ∃ t, HasSection document t) :
    (Section.table projectSection).find? document = none := by
  cases hfind : (Section.table projectSection).find? document with
  | none => rfl
  | some t => exact absurd ⟨t, find?_projectSection.1 hfind⟩ h

/-- No key comes twice in the table that a section of a document names. -/
theorem nodup_of_find? (hdoc : Toml.parse? content.toList = some document)
    (hpart : part.find? document = some t) : (t.map Prod.fst).Nodup := by
  have hdistinct := Toml.distinct_of_parse? hdoc
  cases part with
  | root =>
    cases hpart
    exact (List.filter_sublist.map Prod.fst).nodup hdistinct.nodup
  | table path => exact (hdistinct.descend? hpart).nodup

/-! ## The rule -/

/-- What comes of reading a table. -/
structure ReadAs (t : Toml.Table) (origin : String) (result : Except Failure (Option Settings)) :
    Prop where
  /-- A table is accepted if each of its entries gives a key a value of its sort. -/
  accepts : (∃ c, result = .ok (some c)) ↔ ∀ e ∈ t, Proper e.1 e.2
  /-- The layer then sets these keys to these values and no others. -/
  sets : ∀ c, result = .ok (some c) →
    ∀ k v, c.value? k = some v ↔ ∃ w, (k.name, w) ∈ t ∧ w.settled = v
  /-- Of several entries that are not accepted the one whose key has the least bytes counts. -/
  rejects : ¬ (∀ e ∈ t, Proper e.1 e.2) → ∃ e ∈ t, ∃ r, Offends e.1 e.2 r ∧
    (∀ e' ∈ t, ¬ Proper e'.1 e'.2 → Text.bytesOf e.1 ≤ Text.bytesOf e'.1) ∧
    result = .error (rejection origin r)

theorem readAs_ofTable (hnodup : (t.map Prod.fst).Nodup) (origin : String) :
    ReadAs t origin (((ofTable t).map some).mapError (rejection origin)) := by
  have hread := ofTable_spec hnodup
  cases htable : ofTable t with
  | ok c =>
    rw [htable] at hread
    obtain ⟨hproper, hvalues⟩ := hread
    refine ⟨⟨fun _ => hproper, fun _ => ⟨c, rfl⟩⟩, ?_, fun h => absurd hproper h⟩
    intro c' hc k v
    cases hc
    rw [hvalues k, Option.map_eq_some_iff]
    constructor
    · rintro ⟨w, hw, hv⟩
      exact ⟨w, Toml.mem_of_lookup hw, hv⟩
    · rintro ⟨w, hw, hv⟩
      exact ⟨w, Toml.lookup_of_mem hnodup hw, hv⟩
  | error r =>
    rw [htable] at hread
    obtain ⟨e, he, hoffends, hleast⟩ := hread
    have himproper : ¬ ∀ e ∈ t, Proper e.1 e.2 := fun h => (h e he).not_offends r hoffends
    refine ⟨⟨nofun, fun h => absurd h himproper⟩, nofun, fun _ => ⟨e, he, r, hoffends, ?_, rfl⟩⟩
    intro e' he' h
    exact Text.le_iff_bytesOf.1 (hleast e' he' h)

theorem readAs_readOn (hdoc : Toml.parse? content.toList = some document)
    (hpart : part.find? document = some t) :
    ReadAs t origin (readOn launcher host origin content part) := by
  rw [readOn_some hdoc hpart]
  exact readAs_ofTable (nodup_of_find? hdoc hpart) origin

/-- No table is a value of a key. -/
theorem ReadAs.of_table {result : Except Failure (Option Settings)} (h : ReadAs t origin result)
    {key : String} {inner : Toml.Table} (hmem : (key, .table inner) ∈ t) :
    ∃ r, result = .error (rejection origin r) := by
  have himproper : ¬ ∀ e ∈ t, Proper e.1 e.2 := by
    intro hproper
    obtain ⟨k, -, hfits⟩ := hproper _ hmem
    cases k with
    | flag f =>
      obtain ⟨b, hb⟩ := hfits
      cases hb
    | text f =>
      obtain ⟨s, hs⟩ := hfits
      cases hs
    | list l =>
      obtain ⟨xs, hxs⟩ := hfits
      cases hxs
  obtain ⟨e, -, r, -, -, hr⟩ := h.rejects himproper
  exact ⟨r, hr⟩

/-! ## Documents -/

/-- What the layers of a document are. -/
structure LayersOf (launcher : Launcher) (host : Host) (origin content : String)
    (document : Toml.Table) : Prop where
  /-- The keys of the document are those that its statements name for the root, and a key holds a
  table if it is first named by a header, by a dotted key or with an inline table, and not by the
  header of an item of an array that the key itself holds. -/
  tables : ∃ statements, Toml.statements? content.toList = some statements ∧
    ∀ key, (document.lookup key).map Value.isTable = (Toml.rootNames true statements).lookup key
  /-- The root is read without the keys that hold tables. -/
  root : ReadAs document.withoutTables origin (readOn launcher host origin content .root)
  /-- There need not be a section. -/
  absent : readOn launcher host origin content (.table projectSection) = .ok none ↔
    ¬ ∃ t, HasSection document t
  /-- A section is read with all that is in it. -/
  present : ∀ t, HasSection document t →
    ReadAs t origin (readOn launcher host origin content (.table projectSection))
  /-- No section with a table in it is accepted. -/
  nested : ∀ t, HasSection document t → ∀ key inner, (key, .table inner) ∈ t →
    ∃ r, readOn launcher host origin content (.table projectSection) = .error (rejection origin r)

theorem tables_of_parse? (hdoc : Toml.parse? content.toList = some document) :
    ∃ statements, Toml.statements? content.toList = some statements ∧
      ∀ key, (document.lookup key).map Value.isTable =
        (Toml.rootNames true statements).lookup key := by
  rw [Toml.parse?] at hdoc
  obtain ⟨statements, hread, hbuild⟩ := Option.bind_eq_some_iff.1 hdoc
  exact ⟨statements, hread, Toml.isTable_of_build? hbuild⟩

theorem layersOf (hdoc : Toml.parse? content.toList = some document) (launcher : Launcher)
    (host : Host) (origin : String) : LayersOf launcher host origin content document where
  tables := tables_of_parse? hdoc
  root := readAs_readOn hdoc rfl
  absent := by
    constructor
    · rintro hnone ⟨t, ht⟩
      rw [readOn_some hdoc (find?_projectSection.2 ht)] at hnone
      cases hread : ofTable t <;> rw [hread] at hnone <;> cases hnone
    · intro h
      exact readOn_none hdoc (find?_projectSection_none h)
  present t ht := readAs_readOn hdoc (find?_projectSection.2 ht)
  nested t ht _ _ hmem := (readAs_readOn hdoc (find?_projectSection.2 ht)).of_table hmem

/-- Two sections with the same entries are read alike, whatever is around them. -/
theorem readOn_congr {content' : String} {document' : Toml.Table} {part' : Section}
    {launcher' : Launcher} {host' : Host}
    (hdoc : Toml.parse? content.toList = some document)
    (hdoc' : Toml.parse? content'.toList = some document')
    (hpart : part.find? document = some t) (hpart' : part'.find? document' = some t')
    (h : ∀ e, e ∈ t ↔ e ∈ t') :
    readOn launcher host origin content part = readOn launcher' host' origin content' part' := by
  have hnodup := nodup_of_find? hdoc hpart
  have hnodup' := nodup_of_find? hdoc' hpart'
  have hperm : t.Perm t' :=
    (List.perm_ext_iff_of_nodup hnodup.of_map hnodup'.of_map).2 h
  rw [readOn_some hdoc hpart, readOn_some hdoc' hpart', ofTable_congr hnodup hperm]

/-- The layers of a document are those of its root without tables and of its section.  Hence the
root is read alike in all documents that agree on what is no table, the section in all documents
that agree on it, and entries are read alike in both of them. -/
theorem read_document (hdoc : Toml.parse? content.toList = some document) (launcher : Launcher)
    (host : Host) (origin : String) :
    LayersOf launcher host origin content document ∧
    ∀ content' document' launcher' host', Toml.parse? content'.toList = some document' →
      ((∀ e, e ∈ document.withoutTables ↔ e ∈ document'.withoutTables) →
        readOn launcher host origin content .root =
          readOn launcher' host' origin content' .root) ∧
      ((∀ t, HasSection document t ↔ HasSection document' t) →
        readOn launcher host origin content (.table projectSection) =
          readOn launcher' host' origin content' (.table projectSection)) ∧
      ∀ t', HasSection document' t' → (∀ e, e ∈ document.withoutTables ↔ e ∈ t') →
        readOn launcher host origin content .root =
          readOn launcher' host' origin content' (.table projectSection) := by
  refine ⟨layersOf hdoc launcher host origin, fun content' document' launcher' host' hdoc' => ?_⟩
  refine ⟨readOn_congr hdoc hdoc' rfl rfl, fun hsections => ?_, fun t' ht' =>
    readOn_congr hdoc hdoc' rfl (find?_projectSection.2 ht')⟩
  by_cases hsection : ∃ t, HasSection document t
  · obtain ⟨t, ht⟩ := hsection
    exact readOn_congr hdoc hdoc' (find?_projectSection.2 ht)
      (find?_projectSection.2 ((hsections t).1 ht)) fun _ => Iff.rfl
  · have hsection' : ¬ ∃ t, HasSection document' t := fun ⟨t, ht⟩ =>
      hsection ⟨t, (hsections t).2 ht⟩
    rw [readOn_none hdoc (find?_projectSection_none hsection),
      readOn_none hdoc' (find?_projectSection_none hsection')]

/-- A document with a date, a dotted key and a section. -/
def datedText : String :=
  "clean = true\nversion = 1979-05-27\nx.y = 1\n[tool.cmake_pc_hooks]\ndefines = ['A']\n"

def datedDocument : Toml.Table :=
  [("clean", .truth true), ("version", .moment (.date ⟨1979, 5, 27⟩)),
    ("x", .table [("y", .integer 1)]),
    ("tool", .table [("cmake_pc_hooks", .table [("defines", .array [.text "A"])])])]

/-- Its root gives the version as a text and leaves the definitions alone, and these are read as if
they stood alone at a root. -/
theorem read_document_dated :
    Toml.parse? datedText.toList = some datedDocument ∧
    Toml.parse? "defines = ['A']\n".toList = some [("defines", .array [.text "A"])] ∧
    (∃ c, readOn programless {} "x.toml" datedText .root = .ok (some c) ∧
      c.value? (.text .version) = some (.text "1979-05-27") ∧
      c.value? (.list .defines) = none) ∧
    readOn programless {} "x.toml" "defines = ['A']\n" .root =
      readOn programless {} "x.toml" datedText (.table projectSection) := by
  have hdated : Toml.parse? datedText.toList = some datedDocument := by
    have hread : Toml.statements? datedText.toList = some
        [.pair ["clean"] (.truth true), .pair ["version"] (.moment (.date ⟨1979, 5, 27⟩)),
          .pair ["x", "y"] (.integer 1), .header ["tool", "cmake_pc_hooks"],
          .pair ["defines"] (.array [.text "A"])] := rfl
    rw [Toml.parse?, hread]
    rfl
  have halone : Toml.parse? "defines = ['A']\n".toList =
      some [("defines", .array [.text "A"])] := by
    have hread : Toml.statements? "defines = ['A']\n".toList =
        some [.pair ["defines"] (.array [.text "A"])] := rfl
    rw [Toml.parse?, hread]
    rfl
  obtain ⟨hlayers, -⟩ := read_document hdated programless {} "x.toml"
  obtain ⟨-, hcongr⟩ := read_document halone programless {} "x.toml"
  have hroot : datedDocument.withoutTables =
      [("clean", .truth true), ("version", .moment (.date ⟨1979, 5, 27⟩))] := rfl
  have hproper : ∀ e ∈ datedDocument.withoutTables, Proper e.1 e.2 := by
    rw [hroot]
    refine List.forall_mem_cons.2 ⟨⟨.flag .clean, rfl, true, rfl⟩, ?_⟩
    refine List.forall_mem_cons.2 ⟨⟨.text .version, rfl, _, rfl⟩, List.forall_mem_nil _⟩
  obtain ⟨c, hc⟩ := hlayers.root.accepts.2 hproper
  have hsets := hlayers.root.sets c hc
  refine ⟨hdated, halone, ⟨c, hc, ?_, ?_⟩, ?_⟩
  · refine (hsets _ _).2 ⟨.moment (.date ⟨1979, 5, 27⟩), ?_, ?_⟩
    · rw [hroot]
      exact List.mem_cons_of_mem _ List.mem_cons_self
    · rfl
  · refine Option.eq_none_iff_forall_ne_some.2 fun v hv => ?_
    obtain ⟨w, hw, -⟩ := (hsets _ _).1 hv
    rw [hroot] at hw
    have hkey : (Key.list .defines).name ∈ ["clean", "version"] :=
      List.mem_map_of_mem (f := Prod.fst) hw
    exact absurd hkey (by decide)
  · exact (hcongr datedText datedDocument programless {} hdated).2.2 _ ⟨_, rfl, rfl⟩
      fun _ => Iff.rfl

end LintHooks.Settings
