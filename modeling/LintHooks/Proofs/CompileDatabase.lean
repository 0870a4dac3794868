import LintHooks.CompileDatabase
import LintHooks.Host.Stateful
import LintHooks.Proofs.Json.Records
import LintHooks.Proofs.Path
set_option autoImplicit false

/-!
# Compilation databases: what is read of them

Whatever way a list of records is written as a database, these records are read and no others, and
the source files are theirs.  A single record that is not one makes the whole database unreadable.

The main result is `parse_rendered`, about any list of records in any rendering of it.  A database
is read item by item (`parse_list_iff`), and an object is read as the record that it describes
whatever the order of its fields, their spelling and the space between them (`parse_objects_iff`).
An object that lacks a field, has one twice or has one of another sort is `Faulty`, and then nothing
is read (`parse_ne_ok`).  That the files of the records are the source files of a project, seen from
their directories, is `runOn_sourceFiles`.  `parse_rendered_pair` reads two records with escapes,
null and a field that records do not have.
-/

namespace LintHooks

open Json (Value Document)

/-! ## Records as values -/

namespace CompileCommand

/-- The value of a field of a record. -/
def value (c : CompileCommand) (key : String) : Value :=
  if key = "directory" then .ofText c.directory
  else if key = "file" then .ofText c.file
  else if key = "command" then .ofOption .ofText c.command
  else if key = "arguments" then .ofOption .ofTexts c.arguments
  else .null

theorem value_ext (c d : CompileCommand)
    (h : ∀ f ∈ shape.fields, c.value f.key = d.value f.key) : c = d := by
  obtain ⟨directory, file, command, arguments⟩ := c
  obtain ⟨directory', file', command', arguments'⟩ := d
  simp only [shape, List.forall_mem_cons] at h
  obtain ⟨hdirectory, hfile, hcommand, harguments, -⟩ := h
  obtain rfl := Value.ofText_injective _ _ hdirectory
  obtain rfl := Value.ofText_injective _ _ hfile
  obtain rfl := Value.ofOption_injective Value.ofText_injective nofun hcommand
  obtain rfl := Value.ofOption_injective Value.ofTexts_injective nofun harguments
  rfl

theorem shape_lawful : shape.Lawful value := by
  refine .of_holds value_ext ?_
  simp only [shape, List.forall_mem_cons]
  refine ⟨?directory, ?file, ?command, ?arguments, nofun⟩
  case directory =>
    refine .of_put (fun c => c.directory) (fun c s => { c with directory := s })
      (Json.decodes_text _) (fun _ _ => rfl) value_ext (fun _ => rfl) (fun _ _ => rfl) ?_
    intro c s key hkey
    simp [value, hkey]
  case file =>
    refine .of_put (fun c => c.file) (fun c s => { c with file := s })
      (Json.decodes_text _) (fun _ _ => rfl) value_ext (fun _ => rfl) (fun _ _ => rfl) ?_
    intro c s key hkey
    simp [value, hkey]
  case command =>
    refine .of_put (fun c => c.command) (fun c s => { c with command := s })
      ((Json.decodes_text _).nullable nofun) (fun _ _ => rfl) value_ext (fun _ => rfl)
      (fun _ _ => rfl) ?_
    intro c s key hkey
    simp [value, hkey]
  case arguments =>
    refine .of_put (fun c => c.arguments) (fun c xs => { c with arguments := xs })
      ((Json.decodes_texts _).nullable nofun) (fun _ _ => rfl) value_ext (fun _ => rfl)
      (fun _ _ => rfl) ?_
    intro c xs key hkey
    simp [value, hkey]

/-- An object that is no record. -/
inductive Faulty (fs : List (Option String × Value)) : Prop where
  /-- There is no source file. -/
  | noFile : some "file" ∉ fs.map Prod.fst → Faulty fs
  /-- A field of a record is given twice. -/
  | twice {key : String} : key ∈ ["directory", "file", "command", "arguments"] →
    2 ≤ (fs.map Prod.fst).count (some key) → Faulty fs
  /-- The directory or the source file is no text. -/
  | noText {key : String} {v : Value} : key ∈ ["directory", "file"] → (some key, v) ∈ fs →
    (∀ s, v ≠ .ofText s) → Faulty fs
  /-- The command is neither a text nor null. -/
  | noCommand {v : Value} : (some "command", v) ∈ fs → v ≠ .null → (∀ s, v ≠ .ofText s) → Faulty fs
  /-- The arguments are neither a list of texts nor null. -/
  | noArguments {v : Value} : (some "arguments", v) ∈ fs → v ≠ .null → (∀ xs, v ≠ .ofTexts xs) →
    Faulty fs

theorem mem_fields {key : String} (h : key ∈ ["directory", "file", "command", "arguments"]) :
    ∃ f ∈ shape.fields, f.key = key := by
  simpa [shape, eq_comm] using h

theorem given_of_describes {fs : List (Option String × Value)} {c : CompileCommand} {key : String}
    {v : Value} (h : shape.Describes value fs c)
    (hkey : key ∈ ["directory", "file", "command", "arguments"]) (hv : (some key, v) ∈ fs) :
    c.value key = v := by
  obtain ⟨f, hf, rfl⟩ := mem_fields hkey
  exact h.given f hf v hv

theorem Faulty.not_describes {fs : List (Option String × Value)} (h : Faulty fs)
    (c : CompileCommand) : ¬ shape.Describes value fs c := by
  intro hc
  cases h with
  | noFile hfile =>
    -- it is the second field, and the one that has to be there
    exact hfile (hc.required _ (List.mem_cons_of_mem _ (List.mem_cons_self ..)) rfl)
  | twice hkey htwice =>
    obtain ⟨f, hf, rfl⟩ := mem_fields hkey
    have honce := hc.once f hf
    omega
  | noText hkey hv hnone =>
    have hgiven := given_of_describes hc (List.mem_append_left ["command", "arguments"] hkey) hv
    simp only [List.mem_cons, List.not_mem_nil, or_false] at hkey
    rcases hkey with rfl | rfl
    · exact hnone c.directory hgiven.symm
    · exact hnone c.file hgiven.symm
  | noCommand hv hnull hnone =>
    have hgiven : Value.ofOption .ofText c.command = _ := given_of_describes hc (by simp) hv
    cases hcommand : c.command with
    | none => exact hnull (by rw [← hgiven, hcommand, Value.ofOption])
    | some s => exact hnone s (by rw [← hgiven, hcommand, Value.ofOption])
  | noArguments hv hnull hnone =>
    have hgiven : Value.ofOption .ofTexts c.arguments = _ := given_of_describes hc (by simp) hv
    cases harguments : c.arguments with
    | none => exact hnull (by rw [← hgiven, harguments, Value.ofOption])
    | some xs => exact hnone xs (by rw [← hgiven, harguments, Value.ofOption])

end CompileCommand

namespace CompileDatabase

variable {text : String} {vs : List Value}

/-- A database that is a list is read item by item. -/
theorem parse_list_iff (h : Document (.list vs) text.toList) {cs : List CompileCommand} :
    parse text = .ok cs ↔
      List.Forall₂ (CompileCommand.shape.Means CompileCommand.value) vs cs := by
  have hreads := (Json.Shape.reads CompileCommand.shape_lawful).list
  refine (hreads.whole_iff h cs).trans ⟨?_, fun hvs => ⟨vs, rfl, hvs⟩⟩
  rintro ⟨_, heq, hvs⟩
  rwa [Value.list.inj heq]

theorem parse_objects_iff {fss : List (List (Option String × Value))}
    (h : Document (.list (fss.map .object)) text.toList) {cs : List CompileCommand} :
    parse text = .ok cs ↔
      List.Forall₂ (CompileCommand.shape.Describes CompileCommand.value) fss cs := by
  rw [parse_list_iff h, List.forall₂_map_left_iff]
  rfl

theorem parse_ne_ok {fs : List (Option String × Value)} (h : Document (.list vs) text.toList)
    (hmem : .object fs ∈ vs) (hfaulty : CompileCommand.Faulty fs) (cs : List CompileCommand) :
    parse text ≠ .ok cs := by
  rw [Ne, parse_list_iff h]
  intro hvs
  clear h
  induction hvs with
  | nil => cases hmem
  | cons hc _ ih =>
    rcases List.mem_cons.1 hmem with rfl | hmem
    · exact hfaulty.not_describes _ hc
    · exact ih hmem

/-! ## Reading the file -/

variable {h : Host} {path : String}

theorem isFile_of_read {bytes : ByteArray} (hread : h.files.read h.workDir path = .ok bytes) :
    h.isFile path = true := by
  rw [FileSystem.read] at hread
  rw [Host.isFile, FileSystem.isFile, FileSystem.entry?]
  cases hloc : h.files.locate h.workDir path with
  | error e =>
    rw [hloc] at hread
    cases hread
  | ok loc =>
    rw [hloc] at hread
    simp only [bind, Except.bind] at hread
    dsimp only
    split at hread
    · next hfile => rw [hfile]
    · cases hread
    · cases hread

theorem readText_of_read (hread : h.files.read h.workDir path = .ok (Text.encode text)) :
    h.readText path = .ok text := by
  have hdecode : Text.decode? (Text.encode text) = some text := dif_pos text.isValidUTF8
  rw [Host.readText, hread]
  simp only [bind, Except.bind, hdecode]

theorem runOn_sourceFiles (launcher : Launcher)
    (hread : h.files.read h.workDir path = .ok (Text.encode text)) :
    (sourceFiles path).runOn launcher h =
      (match parse text with
        | .error f => .error (.parsingDatabase path (f.message text.toList))
        | .ok commands => .ok (commands.map CompileCommand.sourcePath), h) := by
  rw [sourceFiles, Action.runOn_bind, Action.runOn_host]
  dsimp only
  rw [if_pos (isFile_of_read hread), readText_of_read hread]
  dsimp only
  cases parse text <;> rfl

/-- However a list of records is written as objects, these records are read, and the source files
are theirs, seen from the directories of the compilations.  If one item of a list is an object that
is no record, nothing is read at all. -/
theorem parse_rendered (text : String) :
    (∀ (fss : List (List (Option String × Value))) (cs : List CompileCommand),
      Document (.list (fss.map .object)) text.toList →
      List.Forall₂ (CompileCommand.shape.Describes CompileCommand.value) fss cs →
      parse text = .ok cs ∧
      ∀ (launcher : Launcher) (h : Host) (path : String),
        h.files.read h.workDir path = .ok (Text.encode text) →
        (sourceFiles path).runOn launcher h =
          (.ok (cs.map fun c =>
            if Path.isAbsolute c.file then c.file else Path.join c.directory c.file), h)) ∧
    (∀ (vs : List Value) (fs : List (Option String × Value)), Document (.list vs) text.toList →
      .object fs ∈ vs → CompileCommand.Faulty fs →
      ∃ f, parse text = .error f ∧
      ∀ (launcher : Launcher) (h : Host) (path : String),
        h.files.read h.workDir path = .ok (Text.encode text) →
        (sourceFiles path).runOn launcher h =
          (.error (.parsingDatabase path (f.message text.toList)), h)) := by
  constructor
  · intro fss cs hdocument hdescribes
    have hparse := (parse_objects_iff hdocument).2 hdescribes
    refine ⟨hparse, fun launcher h path hread => ?_⟩
    have hpath : ∀ c : CompileCommand, c.sourcePath =
        if Path.isAbsolute c.file then c.file else Path.join c.directory c.file := by
      intro c
      split
      · next habsolute => exact Path.join_of_isAbsolute habsolute _
      · rfl
    rw [runOn_sourceFiles launcher hread, hparse]
    simp only [← hpath]
  · intro vs fs hdocument hmem hfaulty
    cases hparse : parse text with
    | ok cs => exact absurd hparse (parse_ne_ok hdocument hmem hfaulty cs)
    | error f =>
      refine ⟨f, rfl, fun launcher h path hread => ?_⟩
      rw [runOn_sourceFiles launcher hread, hparse]

/-- A record with an escaped pair, its fields in another order and one that records do not have. -/
def escapedRecord : String :=
  "\x7b\"file\":\"\\ud83d\\ude00\",\"x\":[\x7b\x7d],\"directory\":\"/p\"\x7d"

/-- What the record has. -/
def escapedFields : List (Option String × Value) :=
  [(some "file", .ofText "😀"), (some "x", .list [.object []]), (some "directory", .ofText "/p")]

/-- A record without a directory and with null for a command. -/
def bareRecord : String := "\x7b\"command\":null,\"file\":\"b\"\x7d"

/-- What that record has. -/
def bareFields : List (Option String × Value) :=
  [(some "command", .null), (some "file", .ofText "b")]

theorem written_escapedRecord (r : List Char) :
    Json.Written (.object escapedFields) (escapedRecord.toList ++ r) r := by
  have hchar : Json.pairedChar (((13 * 16 + 8) * 16 + 3) * 16 + 13)
      (((13 * 16 + 14) * 16 + 0) * 16 + 0) = '😀' := by decide
  have hpair : ∀ r, Json.Quoted (some "😀") ('"' :: '\\' :: 'u' :: 'd' :: '8' :: '3' :: 'd' ::
      '\\' :: 'u' :: 'd' :: 'e' :: '0' :: '0' :: '"' :: r) r := by
    intro r
    refine @Json.Quoted.spelled ['😀'] _ _ ?_
    rw [← hchar]
    exact .pair (.digits rfl rfl rfl rfl) (by decide) (.digits rfl rfl rfl rfl) (by decide) .quote
  simp only [escapedRecord, String.reduceToList, List.cons_append, List.nil_append]
  refine .object (.item (.start .none) (.mk (Json.quoted_plain "file" rfl _) .none .none
    (.text (hpair _))) ?_)
  refine .item (.comma .none .none) (.mk (Json.quoted_plain "x" rfl _) .none .none
    (.list (.item (.start .none) (.object (.close .none)) (.close .none)))) ?_
  exact .item (.comma .none .none) (.mk (Json.quoted_plain "directory" rfl _) .none .none
    (.text (Json.quoted_plain "/p" rfl _))) (.close .none)

theorem written_bareRecord (r : List Char) :
    Json.Written (.object bareFields) (bareRecord.toList ++ r) r := by
  simp only [bareRecord, String.reduceToList, List.cons_append, List.nil_append]
  refine .object (.item (.start .none)
    (.mk (Json.quoted_plain "command" rfl _) .none .none .null) ?_)
  exact .item (.comma .none .none) (.mk (Json.quoted_plain "file" rfl _) .none .none
    (.text (Json.quoted_plain "b" rfl _))) (.close .none)

/-- The two records are read and their files found; an object that is no record is refused. -/
theorem parse_rendered_pair :
    ((sourceFiles "/db").runOn (fun _ h => (.error .notFound, h))
      { files := ⟨[(["db"], .file (Text.encode ("[" ++ escapedRecord ++ "," ++ bareRecord ++ "]"))
        false)]⟩ }).1 = .ok ["/p/😀", "b"] ∧
    ∃ f, parse "[\x7b\x7d]" = .error f := by
  have hdocument : Document (.list ([escapedFields, bareFields].map .object))
      ("[" ++ escapedRecord ++ "," ++ bareRecord ++ "]").toList := by
    simp only [String.toList_append, String.reduceToList, List.append_assoc, List.singleton_append]
    exact ⟨_, [], .none, .list (.item (.start .none) (written_escapedRecord _)
      (.item (.comma .none .none) (written_bareRecord _) (.close .none))), .none⟩
  have hread : ∀ bytes,
      (FileSystem.mk [(["db"], .file bytes false)]).read [] "/db" = .ok bytes := by
    intro bytes
    have hsteps : FileSystem.steps "/db" = ["db"] := by decide
    have habsolute : Path.isAbsolute "/db" = true := by decide
    simp only [FileSystem.read, FileSystem.locate, hsteps, habsolute]
    simp [FileSystem.walk, FileSystem.get?]
    rfl
  have hdescribes : List.Forall₂ (CompileCommand.shape.Describes CompileCommand.value)
      [escapedFields, bareFields] [{ directory := "/p", file := "😀" }, { file := "b" }] := by
    refine .cons ?_ (.cons ?_ .nil)
    · constructor <;> simp [escapedFields, CompileCommand.shape, CompileCommand.value]
    · constructor <;>
        simp [bareFields, CompileCommand.shape, CompileCommand.value, Value.ofOption]
  have hempty : Document (.list [.object []]) "[\x7b\x7d]".toList :=
    ⟨_, [], .none, .list (.item (.start .none) (.object (.close .none)) (.close .none)), .none⟩
  constructor
  · rw [((parse_rendered _).1 _ _ hdocument hdescribes).2 _ _ _ (hread _)]
    rfl
  · obtain ⟨f, hf, -⟩ :=
      (parse_rendered "[\x7b\x7d]").2 _ [] hempty (List.mem_cons_self ..) (.noFile (by decide))
    exact ⟨f, hf⟩

end CompileDatabase

end LintHooks
