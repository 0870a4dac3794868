import LintHooks.Options.Basic
import LintHooks.Options.Styled
import LintHooks.Text.Similarity
set_option autoImplicit false

/-!
# Options: what can be wrong with a command line

Every way in which reading the options can end early, asking for the help
included, with its kind and wording.
-/

namespace LintHooks

/-- Why reading the options ended early. -/
inductive OptionError where
  /-- The help was asked for. -/
  | help
  /-- An option was given again that may stand once only. -/
  | repeated (o : Opt)
  /-- An option lacks its value. -/
  | missingValue (o : Opt)
  /-- A value is not among the choices of its option. -/
  | notAChoice (o : Opt) (value : String)
  /-- A flag was given a value; `others` says whether options stood before it. -/
  | unexpectedValue (o : Opt) (value : String) (others : Bool)
  /-- A token is no option; `similar` is an option it may have been meant for and `others`
  says whether options stood before it. -/
  | unknown (token : String) (similar : Option Opt) (others : Bool)
  /-- The path given for CMake is no executable file. -/
  | notExecutable (path : String)
  /-- The variable that stands in for a flag holds no truth value. -/
  | notABoolean (o : Opt) (value : String)
  deriving DecidableEq, Repr, Inhabited

namespace OptionError

/-- The kinds by which callers tell errors apart. -/
inductive Kind where
  | displayHelp | argumentConflict | invalidValue | tooManyValues | unknownArgument
  | valueValidation
  deriving DecidableEq, Repr

def kind : OptionError → Kind
  | .help => .displayHelp
  | .repeated _ => .argumentConflict
  | .missingValue _ => .invalidValue
  | .notAChoice _ _ => .invalidValue
  | .unexpectedValue _ _ _ => .tooManyValues
  | .unknown _ _ _ => .unknownArgument
  | .notExecutable _ => .valueValidation
  | .notABoolean _ _ => .valueValidation

/-- The help is printed on standard output and is no failure. -/
def isHelp (e : OptionError) : Bool := e.kind == .displayHelp

/-- The exit status after an error. -/
def exitCode (e : OptionError) : Nat := if e.isHelp then 0 else 2

/-- Any of the options that may be given, as the usage line lists them. -/
def anyOption : String :=
  "<" ++ String.intercalate "|" ((Opt.all.filter (· ≠ .help)).map Opt.label) ++ ">"

/-- The usage line that names the options seen so far. -/
def usage (command : String) (words : List Part) : List Part :=
  [.plain "\n\n", .heading "Usage:", .plain " ", .literal command] ++ words

/-- The choices of an option, if it has some. -/
def choiceList (o : Opt) : List Part :=
  if o.choices.isEmpty then []
  else
    [.plain "\n  [possible values: "]
      ++ (o.choices.map Part.good).intersperse (.plain ", ") ++ [.plain "]"]

/-- A hint at something similar. -/
def tip (what found : String) : List Part :=
  [.plain "\n\n  ", .good "tip:", .plain (" a similar " ++ what ++ " exists: '"), .good found,
   .plain "'"]

/-- What is wrong, and the usage line where it helps. -/
def body (command : String) : OptionError → List Part
  | .help => []
  | .repeated o =>
    [.plain "the argument '", .bad o.label, .plain "' cannot be used multiple times"]
      ++ usage command [.plain " [OPTIONS]"]
  | .missingValue o =>
    [.plain "a value is required for '", .bad o.label, .plain "' but none was supplied"]
      ++ choiceList o
  | .notAChoice o value =>
    [.plain "invalid value '", .bad value, .plain "' for '", .literal o.label, .plain "'"]
      ++ choiceList o
      ++ match Text.mostSimilar value o.choices with
        | some c => tip "value" c
        | none => []
  | .unexpectedValue o value others =>
    [.plain "unexpected value '", .bad value, .plain "' for '", .literal o.label,
     .plain "' found; no more were expected"]
      ++ usage command
        ((if !others || o = .help then [.plain " ", .literal o.label] else [])
          ++ if others then [.plain (" " ++ anyOption)] else [])
  | .unknown token similar others =>
    [.plain "unexpected argument '", .bad token, .plain "' found"]
      ++ (match similar with
        | some o => tip "argument" o.label
        | none => [])
      ++ usage command
        ((if similar = some .help then [.plain " ", .literal Opt.help.label] else [])
          ++ if others || (similar.isSome && similar ≠ some .help) then
              [.plain (" " ++ anyOption)]
            else if similar.isNone then [.plain " [OPTIONS]"]
            else [])
  | .notExecutable path =>
    [.plain "invalid value '", .bad path, .plain "' for '", .literal Opt.cmake.label,
     .plain ("': " ++ path ++ " is not a valid file and/or does not appear executable")]
  | .notABoolean o value =>
    [.plain "invalid value '", .bad value, .plain "' for '", .literal o.label,
     .plain "': value was not a boolean"]

/-- The message about a faulty command line, in parts. -/
def parts (command : String) (e : OptionError) : List Part :=
  [.alarm "error:", .plain " "] ++ body command e
    ++ [.plain "\n\nFor more information, try '", .literal "--help", .plain "'.\n"]

/-- The message about a faulty command line, without colors. -/
def message (command : String) (e : OptionError) : String :=
  Part.renderAll false (parts command e)

end OptionError

end LintHooks
