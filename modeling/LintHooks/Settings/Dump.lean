import LintHooks.Settings.Basic
import LintHooks.Toml.Quoted
set_option autoImplicit false

/-!
# Settings: written as TOML

One line for every key whose value is not that of an unset key, in the order of
the keys.
-/

namespace LintHooks.Settings

/-- The written form of a truth value. -/
def writeFlag (b : Bool) : List Char := if b then "true".toList else "false".toList

/-- The written form of a text. -/
def writeText (s : String) : List Char := Toml.writeQuoted s.toList

/-- The written form of a list of texts. -/
def writeList (xs : List String) : List Char :=
  ['['] ++ List.intercalate [',', ' '] (xs.map writeText) ++ [']']

/-- The written form of the value of a key, if the key is set. -/
def writeValue? (s : Settings) : Key → Option (List Char)
  | .flag k => (s.flags k).map writeFlag
  | .text k => (s.texts k).map writeText
  | .list k => (s.lists k).map writeList

/-- The line of a key; none if the key is unset. -/
def writeLine (s : Settings) (k : Key) : List Char :=
  match s.writeValue? k with
  | some v => k.name.toList ++ [' ', '=', ' '] ++ v ++ ['\n']
  | none => []

/-- All keys that are set. -/
def write (s : Settings) : List Char := Key.all.flatMap s.writeLine

/-- The settings without what goes without saying, as TOML. -/
def dump (s : Settings) : String := String.ofList s.stripDefaults.write

end LintHooks.Settings
