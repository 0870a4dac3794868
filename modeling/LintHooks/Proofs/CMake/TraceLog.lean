import LintHooks.CMake.Trace
import LintHooks.Proofs.Json.Extent
import LintHooks.Proofs.Json.Records
import LintHooks.Proofs.Path
import LintHooks.Proofs.Text.Lines
set_option autoImplicit false

/-!
# CMake: reading trace logs line by line

Each line of a trace log is read for itself.  It says that a file is generated if it is an entry,
written in whatever way, whose call is in scope and has two arguments; whatever else it is, it says
nothing and takes nothing from other lines.

The main result is `generatedFiles_byLine`.  That lines are read one by one is seen once, on the
lines that stand between the line feeds (`generatedFiles_eq`); two logs one after the other are then
the lines of both (`generatedFiles_append`).  For a single line `parse_eq_ok_iff` says which entry
it is, by the grammar of values and the fields that entries have, so that an entry can be written in
any way (`generatedFiles_entry`), an `Unreadable` line says nothing (`generatedFiles_unreadable`),
and nor does an entry that is out of scope or has no second argument (`generatedFiles_other`).  The
names are seen from the build directory, hence absolute if it is
(`isAbsolute_of_mem_generatedFiles`).
-/

namespace LintHooks.CMake

open Json (Value Document)

namespace TraceEntry

/-! ## Entries as values -/

/-- The value of a field of an entry. -/
def value (e : TraceEntry) (key : String) : Value :=
  if key = "cmd" then .ofText e.command
  else if key = "file" then .ofText e.file
  else if key = "args" then .ofTexts e.args
  else .null

theorem value_ext (e e' : TraceEntry)
    (h : ∀ f ∈ shape.fields, e.value f.key = e'.value f.key) : e = e' := by
  obtain ⟨command, file, args⟩ := e
  obtain ⟨command', file', args'⟩ := e'
  simp only [shape, List.forall_mem_cons] at h
  obtain ⟨hcommand, hfile, hargs, -⟩ := h
  obtain rfl := Value.ofText_injective _ _ hcommand
  obtain rfl := Value.ofText_injective _ _ hfile
  obtain rfl := Value.ofTexts_injective _ _ hargs
  rfl

theorem shape_lawful : shape.Lawful value := by
  refine .of_holds value_ext ?_
  simp only [shape, List.forall_mem_cons]
  refine ⟨?command, ?file, ?args, nofun⟩
  case command =>
    refine .of_put (fun e => e.command) (fun e s => { e with command := s })
      (Json.decodes_text _) (fun _ _ => rfl) value_ext (fun _ => rfl) (fun _ _ => rfl) ?_
    intro e s key hkey
    rw [value, if_neg hkey, value, if_neg hkey]
  case file =>
    refine .of_put (fun e => e.file) (fun e s => { e with file := s })
      (Json.decodes_text _) (fun _ _ => rfl) value_ext (fun _ => rfl) (fun _ _ => rfl) ?_
    intro e s key hkey
    simp [value, hkey]
  case args =>
    refine .of_put (fun e => e.args) (fun e xs => { e with args := xs })
      (Json.decodes_texts _) (fun _ _ => rfl) value_ext (fun _ => rfl)
      (fun _ _ => rfl) ?_
    intro e xs key hkey
    simp [value, hkey]

/-- A line is read as the entry that its value stands for. -/
theorem parse_eq_ok_iff {line : List Char} {e : TraceEntry} :
    parse line = .ok e ↔ ∃ v, Document v line ∧ shape.Means value v e :=
  (Json.Shape.reads shape_lawful).whole_eq_ok_iff

theorem parse_object_iff {line : List Char} {fs : List (Option String × Value)}
    (h : Document (.object fs) line) {e : TraceEntry} :
    parse line = .ok e ↔ shape.Describes value fs e :=
  (Json.Shape.reads shape_lawful).whole_iff h e

/-- Space at the end of a line does not matter to an entry. -/
theorem parse_append_space {line : List Char} {c : Char} (hc : Json.isSpace c = true)
    {e : TraceEntry} : parse (line ++ [c]) = .ok e ↔ parse line = .ok e := by
  rw [parse_eq_ok_iff, parse_eq_ok_iff]
  refine exists_congr fun v => and_congr_left fun hmeans => ?_
  refine Json.document_append_space ?_ hc
  cases v with
  | list _ => rfl
  | object _ => rfl
  | _ => exact hmeans.elim

end TraceEntry

/-! ## Lines -/

theorem not_isBlank_of_startsValue {c : Char} (hc : Json.startsValue c = true) :
    Text.isBlank c = false := by
  rw [Json.startsValue, Bool.or_eq_true] at hc
  rcases hc with hdigit | hc
  · have hrange := hdigit
    simp only [Char.isDigit, Bool.and_eq_true, decide_eq_true_eq] at hrange
    have hlow : 48 ≤ c.toNat := UInt32.le_iff_toNat_le.1 hrange.1
    have hhigh : c.toNat ≤ 57 := UInt32.le_iff_toNat_le.1 hrange.2
    simp [Text.isBlank]
    omega
  · simp only [List.contains_eq_mem, List.mem_cons, List.not_mem_nil, or_false,
      decide_eq_true_eq] at hc
    rcases hc with rfl | rfl | rfl | rfl | rfl | rfl | rfl <;> rfl

/-- An entry does not stand on a blank line. -/
theorem not_blank_of_parse {line : List Char} {e : TraceEntry} (h : TraceEntry.parse line = .ok e) :
    line.all Text.isBlank = false := by
  obtain ⟨v, ⟨t, r, hspace, hv, -⟩, -⟩ := TraceEntry.parse_eq_ok_iff.1 h
  obtain ⟨c, u, rfl, hc⟩ := hv.head
  obtain ⟨w, rfl⟩ := hspace.stands.suffix
  rw [List.all_append, List.all_cons, not_isBlank_of_startsValue hc, Bool.false_and, Bool.and_false]

theorem TraceLine.output?_eq_some_iff {scope : TraceScope} {line : List Char} {out : String} :
    (TraceLine.of scope line).output? = some out ↔ ∃ e input output rest,
      TraceEntry.parse line = .ok e ∧ scope.covers e = true ∧ e.args = input :: output :: rest ∧
        Path.join scope.buildDir output = out := by
  constructor
  · intro h
    rw [TraceLine.of] at h
    split at h
    · cases h
    split at h
    · cases h
    next e hparse =>
    split at h
    · next hcovers =>
      split at h
      · next input output rest hargs =>
        exact ⟨e, input, output, rest, hparse, hcovers, hargs, Option.some.inj h⟩
      · cases h
    · cases h
  · rintro ⟨e, input, output, rest, hparse, hcovers, hargs, rfl⟩
    rw [TraceLine.of, if_neg (by rw [not_blank_of_parse hparse]; exact Bool.false_ne_true), hparse]
    dsimp only
    rw [if_pos hcovers, hargs]
    rfl

theorem TraceLine.output?_append_return (scope : TraceScope) (line : List Char) :
    (TraceLine.of scope (line ++ ['\r'])).output? = (TraceLine.of scope line).output? := by
  have hparse : ∀ e, TraceEntry.parse (line ++ ['\r']) = .ok e ↔ TraceEntry.parse line = .ok e :=
    fun _ => TraceEntry.parse_append_space (by decide)
  refine Option.ext fun out => ?_
  rw [output?_eq_some_iff, output?_eq_some_iff]
  simp only [hparse]

/-! ## Logs -/

variable {scope : TraceScope}

/-- A log says what stands between its line feeds. -/
theorem generatedFiles_eq (log : String) (scope : TraceScope) :
    generatedFiles log scope = (log.toList.splitOn '\n').filterMap fun line =>
      (TraceLine.of scope line).output? :=
  Text.filterMap_lines rfl (TraceLine.output?_append_return scope) log.toList

theorem generatedFiles_append (a b : String) (scope : TraceScope) :
    generatedFiles (a ++ "\n" ++ b) scope = generatedFiles a scope ++ generatedFiles b scope := by
  have hlog : (a ++ "\n" ++ b).toList = a.toList ++ '\n' :: b.toList := by simp
  rw [generatedFiles_eq, hlog, List.splitOn_append_cons_self, List.filterMap_append,
    generatedFiles_eq, generatedFiles_eq]

theorem generatedFiles_line {line : String} (h : '\n' ∉ line.toList) (scope : TraceScope) :
    generatedFiles line scope = (TraceLine.of scope line.toList).output?.toList := by
  rw [generatedFiles_eq, List.splitOn_eq_singleton h]
  cases hout : (TraceLine.of scope line.toList).output? <;> simp [hout]

/-! ### Lines that are no entries -/

/-- A line that is no entry. -/
inductive Unreadable (line : List Char) : Prop where
  /-- The line is no JSON. -/
  | noValue : (∀ v, ¬ Document v line) → Unreadable line
  /-- A field of an entry is given twice. -/
  | twice {fs : List (Option String × Value)} {key : String} : Document (.object fs) line →
    key ∈ ["cmd", "file", "args"] → 2 ≤ (fs.map Prod.fst).count (some key) → Unreadable line
  /-- The command or the file is no text. -/
  | noText {fs : List (Option String × Value)} {key : String} {v : Value} :
    Document (.object fs) line → key ∈ ["cmd", "file"] → (some key, v) ∈ fs →
    (∀ s, v ≠ .ofText s) → Unreadable line
  /-- The arguments are no list of texts. -/
  | noTexts {fs : List (Option String × Value)} {v : Value} :
    Document (.object fs) line → (some "args", v) ∈ fs →
    (∀ xs, v ≠ .ofTexts xs) → Unreadable line
  /-- The line is JSON that stands for no entry for another reason. -/
  | noEntry {v : Value} : Document v line → (∀ e, ¬ TraceEntry.shape.Means TraceEntry.value v e) →
    Unreadable line

theorem mem_keys {key : String} (h : key ∈ ["cmd", "file", "args"]) :
    ∃ f ∈ TraceEntry.shape.fields, f.key = key := by
  simpa [TraceEntry.shape, eq_comm] using h

theorem TraceEntry.given_of_parse {line : List Char} {fs : List (Option String × Value)}
    {e : TraceEntry} {key : String} {v : Value} (hdocument : Document (.object fs) line)
    (hparse : parse line = .ok e) (hkey : key ∈ ["cmd", "file", "args"])
    (hv : (some key, v) ∈ fs) : e.value key = v := by
  obtain ⟨f, hf, rfl⟩ := mem_keys hkey
  exact ((parse_object_iff hdocument).1 hparse).given f hf v hv

theorem Unreadable.parse_ne_ok {line : List Char} (h : Unreadable line) (e : TraceEntry) :
    TraceEntry.parse line ≠ .ok e := by
  intro hparse
  cases h with
  | noValue hnone =>
    obtain ⟨v, hv, -⟩ := TraceEntry.parse_eq_ok_iff.1 hparse
    exact hnone v hv
  | twice hdocument hkey htwice =>
    obtain ⟨f, hf, rfl⟩ := mem_keys hkey
    have honce := ((TraceEntry.parse_object_iff hdocument).1 hparse).once f hf
    omega
  | noText hdocument hkey hv hnone =>
    have hgiven :=
      TraceEntry.given_of_parse hdocument hparse (List.mem_append_left ["args"] hkey) hv
    simp only [List.mem_cons, List.not_mem_nil, or_false] at hkey
    rcases hkey with rfl | rfl
    · exact hnone e.command hgiven.symm
    · exact hnone e.file hgiven.symm
  | noTexts hdocument hv hnone =>
    exact hnone e.args (TraceEntry.given_of_parse hdocument hparse (by simp) hv).symm
  | noEntry hdocument hnone =>
    exact hnone e (((Json.Shape.reads TraceEntry.shape_lawful).whole_iff hdocument e).1 hparse)

theorem generatedFiles_unreadable {line : String} (hline : '\n' ∉ line.toList)
    (h : Unreadable line.toList) (scope : TraceScope) : generatedFiles line scope = [] := by
  have hnone : (TraceLine.of scope line.toList).output? = none := by
    refine Option.eq_none_iff_forall_ne_some.2 fun out hout => ?_
    obtain ⟨e, -, -, -, hparse, -⟩ := TraceLine.output?_eq_some_iff.1 hout
    exact h.parse_ne_ok e hparse
  rw [generatedFiles_line hline, hnone, Option.toList_none]

/-! ### Lines that are entries -/

theorem generatedFiles_entry {line : String} {e : TraceEntry} {input output : String}
    {rest : List String} (hline : '\n' ∉ line.toList)
    (hparse : TraceEntry.parse line.toList = .ok e) (hcovers : scope.covers e = true)
    (hargs : e.args = input :: output :: rest) :
    generatedFiles line scope = [Path.join scope.buildDir output] := by
  have hout := TraceLine.output?_eq_some_iff.2 ⟨e, input, output, rest, hparse, hcovers, hargs, rfl⟩
  rw [generatedFiles_line hline, hout, Option.toList_some]

theorem generatedFiles_other {line : String} {e : TraceEntry} (hline : '\n' ∉ line.toList)
    (hparse : TraceEntry.parse line.toList = .ok e)
    (h : scope.covers e = false ∨ e.args.length < 2) : generatedFiles line scope = [] := by
  have hnone : (TraceLine.of scope line.toList).output? = none := by
    refine Option.eq_none_iff_forall_ne_some.2 fun out hout => ?_
    obtain ⟨e', _, _, _, hparse', hcovers, hargs, -⟩ := TraceLine.output?_eq_some_iff.1 hout
    obtain rfl := Except.ok.inj (hparse.symm.trans hparse')
    rcases h with h | h
    · cases hcovers.symm.trans h
    · simp only [hargs, List.length_cons] at h
      omega
  rw [generatedFiles_line hline, hnone, Option.toList_none]

/-- From an absolute build directory every file that a log names is an absolute path. -/
theorem isAbsolute_of_mem_generatedFiles (h : Path.isAbsolute scope.buildDir = true)
    {log out : String} (hout : out ∈ generatedFiles log scope) : Path.isAbsolute out = true := by
  rw [generatedFiles_eq, List.mem_filterMap] at hout
  obtain ⟨line, -, hline⟩ := hout
  obtain ⟨-, -, output, -, -, -, -, rfl⟩ := TraceLine.output?_eq_some_iff.1 hline
  exact Path.isAbsolute_join h output

/-- A log is read line by line.  Two logs one after the other say what each of them says; a line
that is no entry says nothing; an entry is read as what it is, however it is written, and says that
its second argument is generated, seen from the build directory; and so from an absolute build
directory all files are absolute paths. -/
theorem generatedFiles_byLine (scope : TraceScope) (a b : String) :
    generatedFiles (a ++ "\n" ++ b) scope = generatedFiles a scope ++ generatedFiles b scope ∧
    (∀ line : String, '\n' ∉ line.toList → Unreadable line.toList →
      generatedFiles line scope = [] ∧
      generatedFiles (a ++ "\n" ++ line ++ "\n" ++ b) scope =
        generatedFiles a scope ++ generatedFiles b scope) ∧
    (∀ (line : String) (fs : List (Option String × Value)) (e : TraceEntry),
      '\n' ∉ line.toList → Document (.object fs) line.toList →
      TraceEntry.shape.Describes TraceEntry.value fs e →
      TraceEntry.parse line.toList = .ok e ∧
      (∀ input output rest, scope.covers e = true → e.args = input :: output :: rest →
        generatedFiles line scope =
          [if Path.isAbsolute output then output else Path.join scope.buildDir output]) ∧
      (scope.covers e = false ∨ e.args.length < 2 → generatedFiles line scope = [])) ∧
    (Path.isAbsolute scope.buildDir = true →
      ∀ out ∈ generatedFiles a scope, Path.isAbsolute out = true) := by
  refine ⟨generatedFiles_append a b scope, ?unreadable, ?entry,
    fun h out => isAbsolute_of_mem_generatedFiles h⟩
  case unreadable =>
    intro line hline h
    have hnone := generatedFiles_unreadable hline h scope
    refine ⟨hnone, ?_⟩
    rw [generatedFiles_append, generatedFiles_append, hnone, List.append_nil]
  case entry =>
    intro line fs e hline hdocument hdescribes
    have hparse := (TraceEntry.parse_object_iff hdocument).2 hdescribes
    refine ⟨hparse, fun input output rest hcovers hargs => ?_, generatedFiles_other hline hparse⟩
    rw [generatedFiles_entry hline hparse hcovers hargs]
    split
    · next habsolute => rw [Path.join_of_isAbsolute habsolute]
    · rfl

/-- An entry with an escaped character, its fields in another order and one that entries do not
have. -/
def escapedLine : String :=
  "\x7b\"file\":\"/s\",\"x\":null, \"args\":[\"i\",\"\\u00e9\"],\"cmd\":\"configure_file\"\x7d"

/-- A line whose command is no text says nothing, and an escaped one what it stands for. -/
theorem generatedFiles_byLine_escaped :
    generatedFiles ("" ++ "\n" ++ "\x7b\"cmd\":1\x7d" ++ "\n" ++ "")
      (.ofProject "/s" "/b" []) = [] ∧
    generatedFiles escapedLine (.ofProject "/s" "/b" []) = ["/b/é"] ∧
    Path.isAbsolute "/b/é" = true := by
  have hunreadable : Unreadable "\x7b\"cmd\":1\x7d".toList := by
    simp only [String.reduceToList]
    have hone : Json.Magnitude ['1', '}'] ['}'] := ⟨.digits (by decide) (.one rfl), .none, .none⟩
    have hentry := Json.Entry.mk (Json.quoted_plain "cmd" rfl [':', '1', '}']) .none .none
      (Json.Written.positive hone)
    exact .noText ⟨_, _, .none, .object (.item (.start .none) hentry (.close .none)), .none⟩
      (List.mem_cons_self ..) (List.mem_cons_self ..) nofun
  have hescape : ∀ r, Json.Spelled ['é'] ('\\' :: 'u' :: '0' :: '0' :: 'e' :: '9' :: '"' :: r) r :=
    fun _ => .code (Json.Code.digits (w := 0) (x := 0) (y := 14) (z := 9) rfl rfl rfl rfl) rfl rfl
      .quote
  have hdocument : Document (.object [(some "file", .text (some "/s")), (some "x", .null),
      (some "args", .list [.text (some "i"), .text (some "é")]),
      (some "cmd", .text (some "configure_file"))]) escapedLine.toList := by
    simp only [escapedLine, String.reduceToList]
    refine ⟨_, [], .none, .object (.item (.start .none) (.mk (Json.quoted_plain "file" rfl _) .none
      .none (.text (Json.quoted_plain "/s" rfl _))) ?_), .none⟩
    refine .item (.comma .none .none) (.mk (Json.quoted_plain "x" rfl _) .none .none .null) ?_
    refine .item (.comma .none (.more rfl .none)) (.mk (Json.quoted_plain "args" rfl _) .none .none
      (.list (.item (.start .none) (.text (Json.quoted_plain "i" rfl _))
        (.item (.comma .none .none) (.text (.spelled (hescape _))) (.close .none))))) ?_
    exact .item (.comma .none .none) (.mk (Json.quoted_plain "cmd" rfl _) .none .none
      (.text (Json.quoted_plain "configure_file" rfl _))) (.close .none)
  have hdescribes : TraceEntry.shape.Describes TraceEntry.value
      [(some "file", .text (some "/s")), (some "x", .null),
        (some "args", .list [.text (some "i"), .text (some "é")]),
        (some "cmd", .text (some "configure_file"))]
      { command := "configure_file", file := "/s", args := ["i", "é"] } := by
    constructor <;> simp [TraceEntry.shape, TraceEntry.value, Value.ofText, Value.ofTexts]
  obtain ⟨-, -, hentry, habsolute⟩ := generatedFiles_byLine (.ofProject "/s" "/b" []) escapedLine ""
  obtain ⟨-, hgenerates, -⟩ := hentry _ _ _ (by decide) hdocument hdescribes
  have hout := hgenerates "i" "é" [] (by decide +kernel) rfl
  refine ⟨?_, ?_, ?_⟩
  · obtain ⟨-, hnothing, -, -⟩ := generatedFiles_byLine (.ofProject "/s" "/b" []) "" ""
    rw [(hnothing _ (by decide) hunreadable).2]
    rfl
  · rw [hout]
    rfl
  · exact habsolute rfl "/b/é" (by rw [hout]; decide)

end LintHooks.CMake
