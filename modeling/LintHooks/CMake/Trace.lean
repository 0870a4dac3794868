import LintHooks.Host.Basic
import LintHooks.Json.Record
import LintHooks.Text.Class
import LintHooks.Text.Lines
set_option autoImplicit false

/-!
# CMake: what it says about a project

CMake lists the variables of a cache, and from these the hook knows where the sources of fetched
dependencies are.

CMake can log every command it executes, one JSON object a line.  The calls of
`configure_file` in the project itself tell which files CMake has generated.
Lines that cannot be read are passed over.
-/

namespace LintHooks.CMake

/-! ## Cache variables

CMake lists the variables of a cache as lines `NAME:TYPE=VALUE` among others.  A variable has the
value of its last line. -/

/-- The definitions of a cache, in their order. -/
abbrev CacheVariables : Type := List (String × String)

namespace CacheVariables

/-- The types a variable may have. -/
def types : List (List Char) :=
  ["BOOL".toList, "FILEPATH".toList, "PATH".toList, "STRING".toList, "INTERNAL".toList]

/-- The variable that a line defines, blanks at its end dropped. -/
def definition? (line : List Char) : Option (String × String) :=
  match Text.cut? ':' (Text.trimBlankEnd line) with
  | none => none
  | some (name, rest) =>
    match Text.cut? '=' rest with
    | none => none
    | some (type, value) =>
      if name ≠ [] ∧ name.all Text.isWord ∧ type ∈ types then
        some (String.ofList name, String.ofList value)
      else none

/-- The definitions in a listing of a cache. -/
def parse (listing : String) : CacheVariables :=
  (Text.lines listing.toList).filterMap definition?

/-- The value of a variable. -/
def value? (vs : CacheVariables) (name : String) : Option String := vs.reverse.lookup name

end CacheVariables

/-! ## Trace logs -/

/-- A logged command. -/
structure TraceEntry where
  command : String := ""
  /-- The CMake file that called it. -/
  file : String := ""
  args : List String := []
  deriving DecidableEq, Repr, Inhabited

namespace TraceEntry

/-- How entries are written. -/
def shape : Json.Shape TraceEntry where
  title := "struct TraceEntry"
  blank := {}
  fields :=
    [{ key := "cmd"
       read := fun e s => (Json.readTextAs "a string" s).map fun (v, s) =>
         ({ e with command := v }, s) },
     { key := "file"
       read := fun e s => (Json.readTextAs "a string" s).map fun (v, s) =>
         ({ e with file := v }, s) },
     { key := "args"
       read := fun e s => (Json.readList (Json.readTextAs "a string") s).map fun (v, s) =>
         ({ e with args := v }, s) }]

/-- The entry on a line. -/
def parse (line : List Char) : Except Json.Fault TraceEntry := Json.readWhole shape.read line

end TraceEntry

/-- Which calls matter, and where their relative outputs are. -/
structure TraceScope where
  /-- The text that the path of a calling file has to hold. -/
  sourceDir : String
  /-- The text that it must not hold. -/
  dependencyDir : Option String
  buildDir : String
  deriving DecidableEq, Repr, Inhabited

namespace TraceScope

/-- The scope of a project: its own files, less those of fetched dependencies. -/
def ofProject (sourceDir buildDir : String) (cache : CacheVariables) : TraceScope where
  sourceDir := sourceDir.map fun c => if c = '\\' then '/' else c
  dependencyDir := (cache.value? "FETCHCONTENT_BASE_DIR").filter (· ≠ "")
  buildDir := buildDir

/-- Whether a call was made by a file in scope. -/
def covers (scope : TraceScope) (e : TraceEntry) : Bool :=
  e.command == "configure_file" && Text.occurs scope.sourceDir.toList e.file.toList
    && scope.dependencyDir.all fun dir => !Text.occurs dir.toList e.file.toList

end TraceScope

/-- What a line of a trace log says. -/
inductive TraceLine where
  | blank
  | unreadable (f : Json.Fault)
  | irrelevant
  /-- A file is generated from another one. -/
  | generates (input output : String)
  deriving DecidableEq, Repr, Inhabited

namespace TraceLine

/-- What a line says in a scope. -/
def of (scope : TraceScope) (line : List Char) : TraceLine :=
  if line.all Text.isBlank then .blank
  else match TraceEntry.parse line with
    | .error f => .unreadable f
    | .ok e =>
      if scope.covers e then
        match e.args with
        | input :: output :: _ => .generates input (Path.join scope.buildDir output)
        | _ => .irrelevant
      else .irrelevant

/-- The file that a line says is generated. -/
def output? : TraceLine → Option String
  | .generates _ output => some output
  | _ => none

/-- What the log of the hook says about a line. -/
def note? (line : List Char) : TraceLine → Option String
  | .unreadable f =>
    some ("skipping unreadable trace line (" ++ f.message line ++ "): " ++ String.ofList line)
  | .generates input output =>
    some ("detected call to configure_file(" ++ input ++ " " ++ output ++ " [...])")
  | _ => none

end TraceLine

/-- The files that a trace log says are generated, in its order. -/
def generatedFiles (log : String) (scope : TraceScope) : List String :=
  (Text.lines log.toList).filterMap fun line => (TraceLine.of scope line).output?

/-- The files that a trace log says are generated, with notes about its lines in the log of the
hook. -/
def readTrace (log : String) (scope : TraceScope) : Action (List String) := do
  (Text.lines log.toList).forM fun line =>
    match (TraceLine.of scope line).note? line with
    | some note => Action.debug .trace note
    | none => pure ()
  pure (generatedFiles log scope)

end LintHooks.CMake
