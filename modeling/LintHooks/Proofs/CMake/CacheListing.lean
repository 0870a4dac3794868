import LintHooks.CMake.Trace
import LintHooks.Proofs.Text.Basic
import LintHooks.Proofs.Text.Lines
set_option autoImplicit false

/-!
# CMake: what a listing of a cache says

A line that defines a variable can be read in one way only: no name has a colon in it and no type an
equals sign, so that all others belong to the value.  Of the lines that define one variable the last
one counts.  Hence the values that definitions have been written with are the values read, whatever
stands in them and between them.

The main result is `value?_parse`.  Of any listing it says that a name has the value of the last
line that `Defines` it, and of a written one that this is the value of the last `Definition` of the
name.  The first half is known for a single line (`definition?_eq_some_iff`), is carried over to the
lines of a listing by `parse_eq`, and to the last of them by `value?_eq_some_iff`.  The second half
is about lines of all sorts, with either line ending and with or without one at the end of the
listing; an induction takes them off one at a time (`filterMap_write`).
-/

namespace LintHooks.CMake.CacheVariables

/-! ## Definitions -/

/-- A line that defines a variable: a name, a type of variables and a value, with a colon and an
equals sign between them.  Blanks at the end are no part of the value. -/
structure Defines (line : List Char) (name value : String) : Prop where
  name_ne : name.toList ≠ []
  word : ∀ c ∈ name.toList, Text.isWord c = true
  value_bare : ∀ c, Text.isBlank c = true → value.toList.getLast? ≠ some c
  written : ∃ type ∈ types, ∃ blanks, (∀ c ∈ blanks, Text.isBlank c = true) ∧
    line = (name.toList ++ ':' :: (type ++ '=' :: value.toList)) ++ blanks

variable {line type : List Char} {name value : String}

theorem colon_not_mem (hword : ∀ c ∈ name.toList, Text.isWord c = true) : ':' ∉ name.toList :=
  fun hc => absurd (hword ':' hc) (by decide)

theorem equals_not_mem (htype : type ∈ types) : '=' ∉ type := by
  have hall : ∀ t ∈ types, '=' ∉ t := by decide
  exact hall type htype

/-- Nothing but the value can end a definition, and the equals sign is not blank. -/
theorem getLast?_definition {c : Char} (name type : List Char) (hc : Text.isBlank c = true)
    (hvalue : value.toList.getLast? ≠ some c) :
    (name ++ ':' :: (type ++ '=' :: value.toList)).getLast? ≠ some c := by
  have hassoc : name ++ ':' :: (type ++ '=' :: value.toList) =
      (name ++ ':' :: type) ++ '=' :: value.toList := by simp
  rw [hassoc, List.getLast?_append_cons]
  cases htext : value.toList with
  | nil =>
    rintro ⟨⟩
    exact absurd hc (by decide)
  | cons d text =>
    rwa [List.getLast?_cons_cons, ← htext]

theorem definition?_eq_some_iff :
    definition? line = some (name, value) ↔ Defines line name value := by
  constructor
  · intro h
    rw [definition?.eq_def] at h
    split at h
    · cases h
    · next before rest hcolon =>
      split at h
      · cases h
      · next type text hequals =>
        split at h
        · next hfits =>
          obtain ⟨hne, hword, htype⟩ := hfits
          obtain ⟨hdefinition, -⟩ := Text.cut?_eq_some hcolon
          obtain ⟨rfl, -⟩ := Text.cut?_eq_some hequals
          obtain ⟨⟨blanks, hblanks, rfl⟩, hbare⟩ := Text.trimEnd_eq_iff.1 hdefinition
          cases h
          refine ⟨by rwa [String.toList_ofList], ?_, fun c hc hlast => ?_, type, htype, blanks,
            hblanks, ?_⟩
          · rw [String.toList_ofList]
            exact List.all_eq_true.1 hword
          · refine hbare c hc ?_
            rw [String.toList_ofList] at hlast
            have hassoc : before ++ ':' :: (type ++ '=' :: text) =
                (before ++ ':' :: (type ++ ['='])) ++ text := by simp
            rw [hassoc, List.getLast?_append, hlast, Option.some_or]
          · rw [String.toList_ofList, String.toList_ofList]
        · cases h
  · rintro ⟨hne, hword, hbare, type, htype, blanks, hblanks, rfl⟩
    have htrim := Text.trimEnd_append_of_getLast hblanks fun c hc =>
      getLast?_definition name.toList type hc (hbare c hc)
    have hfits : name.toList ≠ [] ∧ name.toList.all Text.isWord ∧ type ∈ types :=
      ⟨hne, List.all_eq_true.2 hword, htype⟩
    rw [definition?, Text.trimBlankEnd, htrim, Text.cut?_append (colon_not_mem hword)]
    dsimp only
    rw [Text.cut?_append (equals_not_mem htype)]
    dsimp only
    rw [if_pos hfits, String.ofList_toList, String.ofList_toList]

theorem definition?_nil : definition? [] = none := rfl

theorem definition?_append_return (line : List Char) :
    definition? (line ++ ['\r']) = definition? line := by
  have htrim : Text.trimBlankEnd (line ++ ['\r']) = Text.trimBlankEnd line := by
    have hblank : Text.isBlank '\r' = true := by decide
    rw [Text.trimBlankEnd, Text.trimEnd, List.reverse_append, List.reverse_singleton,
      List.singleton_append, List.dropWhile_cons_of_pos hblank]
    rfl
  rw [definition?, htrim, ← definition?]

/-! ## Listings -/

/-- What is read from a listing is read from what stands between its line feeds. -/
theorem parse_eq (listing : String) :
    parse listing = (listing.toList.splitOn '\n').filterMap definition? :=
  Text.filterMap_lines definition?_nil definition?_append_return listing.toList

/-- The last entry for a name is the one that counts. -/
theorem value?_eq_some_iff {vs : CacheVariables} : vs.value? name = some value ↔
    ∃ before after, vs = before ++ (name, value) :: after ∧ ∀ entry ∈ after, entry.1 ≠ name := by
  rw [value?, List.lookup_eq_some_iff]
  constructor
  · rintro ⟨behind, ahead, heq, hother⟩
    refine ⟨ahead.reverse, behind.reverse, ?_, fun entry hentry => ?_⟩
    · rw [← List.reverse_reverse vs, heq]
      simp
    · exact (bne_iff_ne.1 (hother entry (List.mem_reverse.1 hentry))).symm
  · rintro ⟨before, after, rfl, hother⟩
    refine ⟨after.reverse, before.reverse, by simp, fun entry hentry => ?_⟩
    exact bne_iff_ne.2 (hother entry (List.mem_reverse.1 hentry)).symm

theorem value?_parse_eq_some_iff {listing : String} : (parse listing).value? name = some value ↔
    ∃ before line after, listing.toList.splitOn '\n' = before ++ line :: after ∧
      Defines line name value ∧ ∀ l ∈ after, ∀ other, ¬ Defines l name other := by
  rw [value?_eq_some_iff, parse_eq]
  constructor
  · rintro ⟨before, after, heq, hlast⟩
    obtain ⟨ahead, rest, hlines, -, hrest⟩ := List.filterMap_eq_append_iff.1 heq
    obtain ⟨skipped, line, behind, rfl, -, hline, rfl⟩ := List.filterMap_eq_cons_iff.1 hrest
    refine ⟨ahead ++ skipped, line, behind, by simp [hlines], definition?_eq_some_iff.1 hline,
      fun l hl other hdefines => ?_⟩
    have hentry : (name, other) ∈ behind.filterMap definition? :=
      List.mem_filterMap.2 ⟨l, hl, definition?_eq_some_iff.2 hdefines⟩
    exact hlast _ hentry rfl
  · rintro ⟨before, line, after, hlines, hline, hlast⟩
    refine ⟨before.filterMap definition?, after.filterMap definition?, ?_, ?_⟩
    · rw [hlines, List.filterMap_append, List.filterMap_cons, definition?_eq_some_iff.2 hline]
    · rintro ⟨_, other⟩ hentry rfl
      obtain ⟨l, hl, hdefines⟩ := List.mem_filterMap.1 hentry
      exact hlast l hl other (definition?_eq_some_iff.1 hdefines)

/-! ## Written listings -/

/-- A definition that can be written on a line. -/
structure Definition where
  name : String
  type : List Char
  value : String
  name_ne : name.toList ≠ []
  word : ∀ c ∈ name.toList, Text.isWord c = true
  type_mem : type ∈ types
  value_line : '\n' ∉ value.toList
  value_bare : ∀ c, Text.isBlank c = true → value.toList.getLast? ≠ some c

/-- A line of a listing. -/
inductive Line where
  | definition (d : Definition)
  /-- A line that defines nothing. -/
  | other (text : List Char) (line : '\n' ∉ text) (idle : ∀ name value, ¬ Defines text name value)

namespace Line

def text : Line → List Char
  | .definition d => d.name.toList ++ ':' :: (d.type ++ '=' :: d.value.toList)
  | .other text _ _ => text

/-- What a line defines. -/
def definition? : Line → Option Definition
  | .definition d => some d
  | .other _ _ _ => none

/-- The lines as one text.  Some of them have a carriage return before their line feed, and the last
one may have no line feed. -/
def write (lines : List (Line × Bool)) (last : Option Line) : List Char :=
  (lines.flatMap fun (l, returned) => l.text ++ (if returned then ['\r', '\n'] else ['\n'])) ++
    (last.map text).getD []

theorem lineFeed_not_mem (l : Line) : '\n' ∉ l.text := by
  cases l with
  | other text line _ => exact line
  | definition d =>
    have hname : '\n' ∉ d.name.toList := fun hc => absurd (d.word _ hc) (by decide)
    have htype : '\n' ∉ d.type := by
      have hall : ∀ t ∈ types, '\n' ∉ t := by decide
      exact hall _ d.type_mem
    simp [text, hname, htype, d.value_line]

theorem definition?_text (l : Line) :
    CacheVariables.definition? l.text = l.definition?.map fun d => (d.name, d.value) := by
  cases l with
  | definition d =>
    exact definition?_eq_some_iff.2 ⟨d.name_ne, d.word, d.value_bare, d.type, d.type_mem, [],
      nofun, (List.append_nil _).symm⟩
  | other text line idle =>
    refine Option.eq_none_iff_forall_ne_some.2 fun entry hentry => ?_
    exact idle _ _ (definition?_eq_some_iff.1 hentry)

/-- The induction takes one line off at a time. -/
theorem filterMap_write (lines : List (Line × Bool)) (last : Option Line) :
    ((write lines last).splitOn '\n').filterMap CacheVariables.definition? =
      ((lines.map Prod.fst ++ last.toList).filterMap definition?).map
        fun d => (d.name, d.value) := by
  induction lines with
  | nil =>
    cases last with
    | none => rfl
    | some l =>
      have hline : write [] (some l) = l.text := rfl
      rw [hline, List.splitOn_eq_singleton l.lineFeed_not_mem, List.map_filterMap]
      simp [definition?_text, List.filterMap_cons]
  | cons first lines ih =>
    obtain ⟨l, returned⟩ := first
    obtain ⟨line, hline, hwrite, hread⟩ : ∃ line, '\n' ∉ line ∧
        write ((l, returned) :: lines) last = line ++ '\n' :: write lines last ∧
        CacheVariables.definition? line = CacheVariables.definition? l.text := by
      cases returned with
      | false => exact ⟨l.text, l.lineFeed_not_mem, by simp [write], rfl⟩
      | true =>
        refine ⟨l.text ++ ['\r'], ?_, by simp [write], definition?_append_return _⟩
        simp [l.lineFeed_not_mem]
    rw [hwrite, List.splitOn_append_cons_self_of_not_mem hline, List.filterMap_cons, ih, hread,
      definition?_text]
    cases hd : l.definition? <;> simp [hd]

end Line

/-- A listing gives a name the value of the last line that defines it.  So of definitions that are
written among lines which define nothing, the last one for each name is read, and nothing else. -/
theorem value?_parse :
    (∀ (listing name value : String), (parse listing).value? name = some value ↔
      ∃ before line after, listing.toList.splitOn '\n' = before ++ line :: after ∧
        Defines line name value ∧ ∀ l ∈ after, ∀ other, ¬ Defines l name other) ∧
    ∀ (lines : List (Line × Bool)) (last : Option Line) (name value : String),
      (parse (String.ofList (Line.write lines last))).value? name = some value ↔
        ∃ before d after, (lines.map Prod.fst ++ last.toList).filterMap Line.definition? =
            before ++ d :: after ∧ d.name = name ∧ d.value = value ∧
          ∀ e ∈ after, e.name ≠ name := by
  refine ⟨fun listing name value => value?_parse_eq_some_iff, fun lines last name value => ?_⟩
  rw [value?_eq_some_iff, parse_eq, String.toList_ofList, Line.filterMap_write]
  constructor
  · rintro ⟨before, after, heq, hlast⟩
    obtain ⟨ahead, rest, hdefinitions, -, hrest⟩ := List.map_eq_append_iff.1 heq
    obtain ⟨d, behind, rfl, hd, rfl⟩ := List.map_eq_cons_iff.1 hrest
    obtain ⟨rfl, rfl⟩ := Prod.mk.inj hd
    exact ⟨ahead, d, behind, hdefinitions, rfl, rfl,
      fun e he => hlast _ (List.mem_map_of_mem he)⟩
  · rintro ⟨before, d, after, heq, rfl, rfl, hlast⟩
    refine ⟨before.map fun d => (d.name, d.value), after.map fun d => (d.name, d.value), ?_, ?_⟩
    · rw [heq, List.map_append, List.map_cons]
    · rintro entry hentry
      obtain ⟨e, he, rfl⟩ := List.mem_map.1 hentry
      exact hlast e he

/-- The value has a colon and an equals sign of its own, and a later line is no definition. -/
example : (parse "A:BOOL=ON\nA:PATH=c:=d \r\n-- A:BOOL=OFF").value? "A" = some "c:=d" := by decide

end LintHooks.CMake.CacheVariables
