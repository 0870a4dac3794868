import LintHooks.CompileDatabase
set_option autoImplicit false

/-!
# Hooks: what they wrap

A hook wraps one tool for C and C++ sources.  Here stands what differs from one
tool to the next before anything runs: names, versions, files, default arguments
and the order of a command line.
-/

namespace LintHooks

/-- The hooks, one for each tool. -/
inductive Hook where
  | clangFormat | clangTidy | cppcheck | cpplint | includeWhatYouUse | lizard
  deriving DecidableEq, Repr, Inhabited

namespace Hook

/-- All hooks. -/
def all : List Hook := [.clangFormat, .clangTidy, .cppcheck, .cpplint, .includeWhatYouUse, .lizard]

/-- The name of the tool. -/
def name : Hook → String
  | .clangFormat => "clang-format"
  | .clangTidy => "clang-tidy"
  | .cppcheck => "cppcheck"
  | .cpplint => "cpplint"
  | .includeWhatYouUse => "include-what-you-use"
  | .lizard => "lizard"

/-- The hook that wraps a tool. -/
def ofName? (s : String) : Option Hook := all.find? fun h => h.name == s

/-- The name of the hook's own executable. -/
def commandName (h : Hook) : String := h.name ++ "-hook"

/-- The names under which the tool is looked for, in order. -/
def executables : Hook → List String
  | .includeWhatYouUse => ["iwyu_tool.py", "iwyu-tool", "iwyu_tool"]
  | h => [h.name]

/-- The names of the program that tells the version. -/
def versionExecutables : Hook → List String
  | .includeWhatYouUse => ["include-what-you-use"]
  | h => h.executables

/-- What stands in front of the version. -/
def lookBehind : Hook → String
  | .clangFormat => "clang-format version "
  | .clangTidy => "LLVM version "
  | .cppcheck => "Cppcheck "
  | .cpplint => "cpplint "
  | .includeWhatYouUse => "include-what-you-use "
  | .lizard => ""

/-- How to get the tool. -/
def installHint : Hook → String
  | .clangFormat => Hint.clangTools
  | .clangTidy => Hint.clangTools
  | .cppcheck => Hint.cppcheck
  | .cpplint => Hint.cpplint
  | .includeWhatYouUse => Hint.includeWhatYouUse
  | .lizard => Hint.lizard

/-- Whether the tool reads the compilation database. -/
def needsDatabase : Hook → Bool
  | .clangTidy | .cppcheck | .includeWhatYouUse => true
  | _ => false

/-- Whether existing files after the separator are targets and the rest goes to the tool.  The
other hooks take everything there for targets. -/
def splitsDdash : Hook → Bool
  | .clangTidy | .includeWhatYouUse => true
  | _ => false

/-! ## Files -/

/-- The extensions of the files that the hook handles. -/
def extensions : Hook → List String
  | .lizard => ["c", "cc", "cxx", "cpp", "cu", "h", "hpp", "hxx", "py"]
  | _ =>
    ["c", "cc", "cxx", "cpp", "c++", "cu", "h", "hh", "hpp", "hxx", "h++", "ipp", "inl", "tpp"]

/-- Whether the hook handles a file: its name ends in a point and one of the extensions. -/
def handles (h : Hook) (file : String) : Bool :=
  h.extensions.any fun e => Text.endsWith ('.' :: e.toList) file.toList

/-- An extension as it stands in a pattern. -/
def escaped (extension : String) : String :=
  String.join (extension.toList.map fun c => if c = '+' then "\\+" else String.singleton c)

/-- The pattern of the names that the hook handles. -/
def filePattern (h : Hook) : String :=
  "\\.(?:" ++ String.intercalate "|" (h.extensions.map escaped) ++ ")$"

/-! ## Arguments -/

/-- The default argument that points a tool to the database of a build directory, if there is
one. -/
def databaseArg (option : String) (buildDir : Option String) : List String :=
  (buildDir.map fun dir => option ++ CompileDatabase.pathIn dir).toList

/-- The arguments that are added where the user has not given the same option. -/
def defaultArgs (h : Hook) (buildDir : Option String) : List String :=
  match h with
  | .clangTidy => databaseArg "-p=" buildDir
  | .includeWhatYouUse => databaseArg "-p=" buildDir
  | .cppcheck => ["-q", "--error-exitcode=1", "--enable=all"] ++ databaseArg "--project=" buildDir
  | _ => []

/-- Whether the files stand before the arguments on the command line of the tool. -/
def filesFirst : Hook → Bool
  | .clangTidy | .includeWhatYouUse | .lizard => true
  | _ => false

/-- A command line with more arguments after a separator, if there are any. -/
def appendDdash (command ddash : List String) : List String :=
  if ddash.isEmpty then command else command ++ "--" :: ddash

/-- The command line of one run of the tool. -/
def commandLine (h : Hook) (args files ddash : List String) : List String :=
  appendDdash (if h.filesFirst then files ++ args else args ++ files) ddash

/-- The name of the option in an argument: the text before the first `=`. -/
def optionName (arg : String) : String :=
  match Text.cut? '=' arg.toList with
  | some (name, _) => String.ofList name
  | none => arg

/-- Adds an argument unless one with the same option name is there. -/
def addIfMissing (args : List String) (arg : String) : List String :=
  if args.any fun a => optionName a == optionName arg then args else args ++ [arg]

/-- The arguments of the user, completed by default ones. -/
def completeArgs (args defaults : List String) : List String := defaults.foldl addIfMissing args

end Hook

end LintHooks
