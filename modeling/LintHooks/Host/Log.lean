import LintHooks.Text.Basic
import LintHooks.Text.Quoted
set_option autoImplicit false

/-!
# Host: the log

A hook can tell what it does.  Each message has a level and a topic, and a filter
decides which ones are shown.  A filter is a list of directives: a level for every
topic whose path begins with a given text, or for all of them.
-/

namespace LintHooks

/-- The weight of a message. -/
inductive LogLevel where
  | error | warn | info | debug | trace
  deriving DecidableEq, Repr, Inhabited

namespace LogLevel

/-- How much detail a level stands for. -/
def detail : LogLevel → Nat
  | .error => 1
  | .warn => 2
  | .info => 3
  | .debug => 4
  | .trace => 5

/-- The tag of a level, five characters wide. -/
def tag : LogLevel → String
  | .error => "ERROR"
  | .warn => " WARN"
  | .info => " INFO"
  | .debug => "DEBUG"
  | .trace => "TRACE"

/-- The number of the color of a level. -/
def color : LogLevel → Nat
  | .error => 31
  | .warn => 33
  | .info => 32
  | .debug => 34
  | .trace => 35

end LogLevel

/-- What a message is about. -/
inductive LogTopic where
  | cmake | database | trace | settings | process | hooks | format | tools
  deriving DecidableEq, Repr

/-- The path by which filters name a topic. -/
def LogTopic.path : LogTopic → String
  | .cmake => "cmake_pc_hooks::build::cmake"
  | .database => "cmake_pc_hooks::build::compile_db"
  | .trace => "cmake_pc_hooks::build::trace"
  | .settings => "cmake_pc_hooks::config::hook_toml"
  | .process => "cmake_pc_hooks::exec::subprocess"
  | .hooks => "cmake_pc_hooks::hooks"
  | .format => "cmake_pc_hooks::hooks::clang_format"
  | .tools => "cmake_pc_hooks::utils::tools"

/-- The detail shown of the topics whose path begins with `target`. -/
structure LogDirective where
  target : String := ""
  detail : Nat
  deriving DecidableEq, Repr, Inhabited

namespace LogDirective

/-- The detail a word stands for: the name of a level in any case, or its number. -/
def detail? (word : String) : Option Nat :=
  let names := [("off", 0), ("error", 1), ("warn", 2), ("info", 3), ("debug", 4), ("trace", 5),
    ("0", 0), ("1", 1), ("2", 2), ("3", 3), ("4", 4), ("5", 5)]
  names.lookup (word.map Char.toLower)

/-- A character of a target. -/
def isTargetChar (c : Char) : Bool := c.isAlphanum || c == '_' || c == ':' || c == '-'

/-- Reads one directive: a level, a target, or a target with a level. -/
def parse? (s : String) : Option LogDirective :=
  match detail? s with
  | some d => some ⟨"", d⟩
  | none =>
    let (target, rest) := s.toList.span isTargetChar
    if target = [] then none
    else match rest with
      | [] => some ⟨String.ofList target, 5⟩
      | '=' :: level =>
        if level = [] then some ⟨String.ofList target, 5⟩
        else (detail? (String.ofList level)).map fun d => ⟨String.ofList target, d⟩
      | _ => none

end LogDirective

/-- Which messages are shown. -/
structure LogFilter where
  directives : List LogDirective
  deriving Repr, Inhabited

namespace LogFilter

/-- The filter of a hook that nothing else is said about. -/
def standard (verbose : Bool) : LogFilter :=
  ⟨[⟨"cmake_pc_hooks", if verbose then 4 else 2⟩]⟩

/-- Reads a filter: directives between commas.  An empty text shows errors only. -/
def parse? (s : String) : Option LogFilter :=
  let words := ((s.toList.splitOn ',').map String.ofList).filter (· ≠ "")
  match words.mapM LogDirective.parse? with
  | none => none
  | some [] => some ⟨[⟨"", 1⟩]⟩
  | some ds => some ⟨ds⟩

/-- The directive that decides about a topic: the one with the longest target, of equal targets
the last. -/
def deciding (f : LogFilter) (topic : LogTopic) : Option LogDirective :=
  let apt := f.directives.filter fun d => d.target.toList.isPrefixOf topic.path.toList
  apt.foldl (fun best d =>
    match best with
    | some b => if d.target.length < b.target.length then some b else some d
    | none => some d) none

/-- Whether a message is shown. -/
def shows (f : LogFilter) (topic : LogTopic) (level : LogLevel) : Bool :=
  match f.deciding topic with
  | some d => level.detail ≤ d.detail
  | none => false

end LogFilter

/-- A message as it is written: control characters that terminals act on are spelled out. -/
def spellControls (message : String) : String :=
  String.join (message.toList.map fun c =>
    if c = '\x1b' then "\\x1b"
    else if c = '\x07' then "\\x07"
    else if c = '\x08' then "\\x08"
    else if c = '\x0c' then "\\x0c"
    else if c = '\x7f' then "\\x7f"
    else if 0x80 ≤ c.toNat && c.toNat ≤ 0x9F then
      "\\u\x7b" ++ Text.lowerHex c.toNat ++ "\x7d"
    else String.singleton c)

end LintHooks
