import LintHooks.Host.Basic
import LintHooks.Json.Record
set_option autoImplicit false

/-!
# Compilation databases

CMake writes down how every source file is compiled, as a list of records in a
file of the build directory.  A hook wants to know which files there are.
-/

namespace LintHooks

/-- How one source file is compiled. -/
structure CompileCommand where
  /-- The directory of the compilation. -/
  directory : String := ""
  /-- The source file. -/
  file : String := ""
  /-- The command as one text. -/
  command : Option String := none
  /-- The command as a list. -/
  arguments : Option (List String) := none
  deriving DecidableEq, Repr, Inhabited

namespace CompileCommand

/-- The source file, seen from the directory of the compilation. -/
def sourcePath (c : CompileCommand) : String := Path.join c.directory c.file

/-- How records are written. -/
def shape : Json.Shape CompileCommand where
  title := "struct CompileCommand"
  blank := {}
  fields :=
    [{ key := "directory"
       read := fun c s => (Json.readTextAs "path string" s).map fun (v, s) =>
         ({ c with directory := v }, s) },
     { key := "file"
       required := true
       read := fun c s => (Json.readTextAs "path string" s).map fun (v, s) =>
         ({ c with file := v }, s) },
     { key := "command"
       read := fun c s => (Json.readNullable (Json.readTextAs "a string") s).map fun (v, s) =>
         ({ c with command := v }, s) },
     { key := "arguments"
       read := fun c s =>
         (Json.readNullable (Json.readList (Json.readTextAs "a string")) s).map fun (v, s) =>
           ({ c with arguments := v }, s) }]

end CompileCommand

namespace CompileDatabase

/-- The name of the database in a build directory. -/
def fileName : String := "compile_commands.json"

/-- The database of a build directory. -/
def pathIn (buildDir : String) : String := Path.join buildDir fileName

/-- The records of a database. -/
def parse (content : String) : Except Json.Fault (List CompileCommand) :=
  Json.readWhole (Json.readList CompileCommand.shape.read) content.toList

/-- The source files of the database at a path, in its order.  A missing database has none. -/
def sourceFiles (path : String) : Action (List String) := do
  let h ← Action.host
  if h.isFile path then
    match h.readText path with
    | .error e => Action.fail (.readingFile path e)
    | .ok content =>
      match parse content with
      | .error f => Action.fail (.parsingDatabase path (f.message content.toList))
      | .ok commands => pure (commands.map CompileCommand.sourcePath)
  else
    Action.debug .database ("no compilation database at " ++ path)
    pure []

end CompileDatabase

end LintHooks
