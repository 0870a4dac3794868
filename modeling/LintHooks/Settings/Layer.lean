import LintHooks.Decimal.Shortest
import LintHooks.Failure
import LintHooks.Settings.Basic
import LintHooks.Text.Quoted
import LintHooks.Toml.Document
set_option autoImplicit false

/-!
# Settings: layers written in TOML

A layer is a table of a TOML document: the root, whose inner tables do not count,
or a table at a path.  A table is accepted when each of its keys is a key of the
settings with a value of its sort; a date or a time counts as the text it is
written as.  Of several keys that are not accepted the least is reported.
-/

namespace LintHooks

/-- What a key wants its value to be. -/
inductive Wanted where
  | truth | text | path | list
  deriving DecidableEq, Repr

def Wanted.name : Wanted → String
  | .truth => "a boolean"
  | .text => "a string"
  | .path => "path string"
  | .list => "a sequence"

/-- Why a table is no layer. -/
inductive Rejection where
  | unknownKey (key : String)
  /-- A value, or an item of a list, of the wrong sort. -/
  | wrongSort (key : Key) (found : Toml.Value) (wanted : Wanted)
  deriving Repr

namespace Rejection

/-- How messages show a value that was found. -/
def describe : Toml.Value → String
  | .text s => "string " ++ Text.quote s
  | .moment t => "string " ++ Text.quote t.text
  | .integer n => "integer `" ++ toString n ++ "`"
  | .number x => "floating point `" ++ x.plainText ++ "`"
  | .truth b => "boolean `" ++ (if b then "true" else "false") ++ "`"
  | .array _ => "sequence"
  | .table _ => "map"

def message : Rejection → String
  | .unknownKey key =>
    let known := Key.all.map fun k => "`" ++ k.name ++ "`"
    "unknown field `" ++ key ++ "`, expected one of " ++ String.intercalate ", " known
  | .wrongSort _ found wanted =>
    "invalid type: " ++ describe found ++ ", expected " ++ wanted.name

end Rejection

namespace Settings

/-- The text of a value that is a text, a date or a time. -/
def textOf? : Toml.Value → Option String
  | .text s => some s
  | .moment t => some t.text
  | _ => none

/-- What a key wants the texts of its value to be. -/
def wantedText (k : Key) : Wanted := if k.holdsPaths then .path else .text

/-- A value as the text of a key. -/
def asText (k : Key) (v : Toml.Value) : Except Rejection String :=
  match textOf? v with
  | some s => .ok s
  | none => .error (.wrongSort k v (wantedText k))

/-- The settings with one key set to a value. -/
def setValue (s : Settings) (k : Key) (v : Toml.Value) : Except Rejection Settings :=
  match k with
  | .flag f =>
    match v with
    | .truth b => .ok (s.setFlag f (some b))
    | _ => .error (.wrongSort k v .truth)
  | .text t => (asText k v).map fun x => s.setText t (some x)
  | .list l =>
    match v with
    | .array items => (items.mapM (asText k)).map fun xs => s.setList l (some xs)
    | _ => .error (.wrongSort k v .list)

/-- Takes in one entry of a table. -/
def setEntry (s : Settings) (entry : String × Toml.Value) : Except Rejection Settings :=
  match Key.ofName? entry.1 with
  | some k => s.setValue k entry.2
  | none => .error (.unknownKey entry.1)

/-- The layer that a table describes. -/
def ofTable (t : Toml.Table) : Except Rejection Settings := t.sorted.foldlM setEntry {}

end Settings

/-! ## Documents -/

/-- The part of a document that holds a layer. -/
inductive Section where
  | root
  /-- The table at a path of keys between dots. -/
  | table (path : String)
  deriving DecidableEq, Repr, Inhabited

namespace Section

/-- The keys of a path. -/
def keys (path : String) : List String := (path.toList.splitOn '.').map String.ofList

/-- The table of a document that a section names, if the document has it. -/
def find? (document : Toml.Table) : Section → Option Toml.Table
  | .root => some document.withoutTables
  | .table path => document.descend? (keys path)

end Section

/-- Why a text holds no layer. -/
inductive LayerError where
  | malformed
  | rejected (r : Rejection)
  deriving Repr

/-- What is reported about a text that holds no layer. -/
def LayerError.report (origin : String) : LayerError → Report
  | .malformed => .config ("Failed to parse " ++ origin) (some Hint.invalidToml)
  | .rejected r =>
    .config ("Invalid settings in " ++ origin ++ ": " ++ r.message) (some Hint.invalidToml)

/-- The layer in a section of a TOML text, if the text has the section. -/
def Settings.ofToml? (content : String) (part : Section) : Except LayerError (Option Settings) :=
  match Toml.parse? content.toList with
  | none => .error .malformed
  | some document =>
    match part.find? document with
    | none => .ok none
    | some table =>
      match Settings.ofTable table with
      | .ok s => .ok (some s)
      | .error r => .error (.rejected r)

end LintHooks
