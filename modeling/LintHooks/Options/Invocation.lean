import LintHooks.Options.Basic
set_option autoImplicit false

/-!
# Options: sorting a command line

A command line mixes options of the hook, options of the wrapped tool and file
names.  `Invocation.sort` sends every token to one of four streams, each in the
order of the command line.
-/

namespace LintHooks

/-- A command line, sorted by where its tokens go. -/
structure Invocation where
  /-- Tokens the hook itself understands. -/
  hookArgs : List String := []
  /-- Options of the wrapped tool. -/
  toolArgs : List String := []
  /-- Names of files. -/
  files : List String := []
  /-- Everything after the separator. -/
  ddash : List String := []
  deriving DecidableEq, Repr, Inhabited

namespace Invocation

/-- Tokens of the hook in front of a sorted rest. -/
def forHook (tokens : List String) (i : Invocation) : Invocation :=
  { i with hookArgs := tokens ++ i.hookArgs }

/-- A token of the tool in front of a sorted rest. -/
def forTool (token : String) (i : Invocation) : Invocation :=
  { i with toolArgs := token :: i.toolArgs }

/-- A file in front of a sorted rest. -/
def forFile (token : String) (i : Invocation) : Invocation := { i with files := token :: i.files }

/-- Where a token goes. -/
inductive Owner where
  | separator
  | hook
  /-- The hook, together with the next token if there is one. -/
  | hookWithNext
  | tool
  | file
  deriving DecidableEq, Repr

/-- Where a token goes, given the token after it.  An option of the hook takes the next token
with it if it still lacks its value; a letter whose value it would not accept belongs to the
tool. -/
def owner (token : String) (next : Option String) : Owner :=
  match Word.ofToken token with
  | .separator => .separator
  | .plain => .file
  | .long name value =>
    match Opt.ofLong? name with
    | none => .tool
    | some o => if o.takesValue && value.isNone then .hookWithNext else .hook
  | .short letter attached =>
    match Opt.ofShort? letter with
    | none => .tool
    | some o =>
      if !o.takesValue then if attached = "" then .hook else .tool
      else if attached ≠ "" then if o.accepts attached then .hook else .tool
      else if next.any o.accepts then .hookWithNext else .tool

/-- Sorts the tokens of a command line. -/
def sort : List String → Invocation
  | [] => {}
  | token :: rest =>
    match owner token rest.head? with
    | .separator => { ddash := rest }
    | .hook => (sort rest).forHook [token]
    | .hookWithNext =>
      match rest with
      | [] => { hookArgs := [token] }
      | value :: more => (sort more).forHook [token, value]
    | .tool => (sort rest).forTool token
    | .file => (sort rest).forFile token

end Invocation

end LintHooks
