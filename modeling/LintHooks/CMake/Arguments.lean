import LintHooks.Settings.Basic
set_option autoImplicit false

/-!
# CMake: arguments of the configure step

The settings as arguments for CMake.  They stand in a fixed order; the ones meant
for the operating system come last.
-/

namespace LintHooks.CMake

/-- Asks CMake for a compilation database. -/
def exportDatabase : String := "-DCMAKE_EXPORT_COMPILE_COMMANDS:BOOL=ON"

/-- An argument that is there only where a flag is set. -/
def flagArg (s : Settings) (k : FlagKey) (arg : String) : List String :=
  if s.flag k then [arg] else []

/-- An argument that carries the text of a key, if the key is set. -/
def textArg (s : Settings) (k : TextKey) (option : String) : List String :=
  ((s.texts k).map fun v => option ++ v).toList

/-- The arguments that settings make on an operating system. -/
def arguments (s : Settings) (os : String) : List String :=
  [exportDatabase]
    ++ (s.list .defines).map (fun d => "-D" ++ d)
    ++ (s.list .undefines).map (fun u => "-U" ++ u)
    ++ flagArg s .devErrors "-Werror=dev"
    ++ flagArg s .noDevErrors "-Wno-error=dev"
    ++ textArg s .generator "-G"
    ++ textArg s .toolset "-T"
    ++ textArg s .platform "-A"
    ++ textArg s .preset "--preset="
    ++ flagArg s .devWarnings "-Wdev"
    ++ flagArg s .noDevWarnings "-Wno-dev"
    ++ (s.platformArgs os).map Text.withoutQuotes

end LintHooks.CMake
