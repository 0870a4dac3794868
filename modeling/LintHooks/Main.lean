import LintHooks.Hook.Command
import LintHooks.Shell.Launch
set_option autoImplicit false

/-!
# The command line

`lint-hooks HOOK ARGUMENTS` runs one hook where it is called: on the files below the
working directory and along the search path, as they are when it begins.  What the
hook has changed is written back, and its status is that of the command.  Tools have
to be shell scripts; a file counts as executable if it begins as one.
-/

namespace LintHooks.CommandLine

/-- How deep directories are read. -/
def depthLimit : Nat := 16

/-- The variables that hooks and tools look at. -/
def watchedNames : List String :=
  ["PATH", "HOME", "VIRTUAL_ENV", "CMAKE_PC_HOOKS_VERBOSE", "CLICOLOR_FORCE", "RUST_LOG"]

/-- The location that an absolute path names. -/
def locationOf (path : String) : Location := FileSystem.steps path

/-- Whether a file begins as a script. -/
def isScript (content : ByteArray) : Bool := content.toList.take 2 == [0x23, 0x21]

/-- Adds an entry of a directory, with what is below it down to a depth. -/
def addEntry : (depth : Nat) → FileSystem → IO.FS.DirEntry → IO FileSystem
  | 0, fs, _ => pure fs
  | depth + 1, fs, e => do
    let loc := locationOf e.path.toString
    try
      if ← e.path.isDir then
        (← e.path.readDir).foldlM (addEntry depth) (fs.place loc .directory)
      else
        let content ← IO.FS.readBinFile e.path
        pure (fs.place loc (.file content (isScript content)))
    catch _ => pure fs

/-- Adds a directory with those of its entries that are wanted, down to a depth. -/
def addDirectory (wanted : IO.FS.DirEntry → IO Bool) (depth : Nat) (fs : FileSystem)
    (dir : String) : IO FileSystem := do
  try
    let entries ← (← IO.FS.realPath dir).readDir
    (← entries.filterM wanted).foldlM (addEntry depth) (fs.place (locationOf dir) .directory)
  catch _ => pure fs

/-- The size up to which a file of the search path may be a script. -/
def scriptSize : UInt64 := 65536

/-- Whether an entry may be a script. -/
def maybeScript (e : IO.FS.DirEntry) : IO Bool := do
  try pure ((← e.path.metadata).byteSize ≤ scriptSize) catch _ => pure false

/-- The host that the command is called on. -/
def hostHere : IO Host := do
  let dir := (← IO.currentDir).toString
  let known ← watchedNames.filterMapM fun name => do
    pure ((← IO.getEnv name).map fun value => (name, value))
  let program : Entry := .file .empty true
  let programs := (({} : FileSystem).place Shell.shellPath program).place Shell.copyPath program
  let searched := ((known.lookup "PATH").elim [] Path.searchList).filter Path.isAbsolute
  let files ← searched.foldlM (addDirectory maybeScript 1) programs
  let files ← addDirectory (fun _ => pure true) depthLimit files dir
  pure { files, workDir := locationOf dir, environment := known }

/-- Writes back what has become different below a directory. -/
def writeBack (before after : FileSystem) (dir : Location) : IO Unit := do
  for (loc, e) in after.entries.reverse do
    if dir <+: loc ∧ before.get? loc ≠ some e then
      match e with
      | .directory => IO.FS.createDirAll (FileSystem.render loc)
      | .file content _ => IO.FS.writeBinFile (FileSystem.render loc) content
      | .link _ => pure ()
  for (loc, e) in before.entries do
    if dir <+: loc ∧ after.get? loc = none ∧ after.get? loc.dropLast ≠ none then
      match e with
      | .directory => IO.FS.removeDirAll (FileSystem.render loc)
      | _ => IO.FS.removeFile (FileSystem.render loc)

/-- How the command is called. -/
def usage : String :=
  "usage: lint-hooks HOOK ARGUMENTS\nhooks: " ++ String.intercalate " " (Hook.all.map Hook.name)

/-- Runs a hook here. -/
def runHook (hook : Hook) (args : List String) : IO Nat := do
  let h ← hostHere
  let (result, after) := (hook.command args).runOn Shell.launcher h
  writeBack h.files after.files h.workDir
  IO.print after.stdout
  IO.eprint after.stderr
  pure (result.toOption.getD 1)

end LintHooks.CommandLine

/-- Runs the hook that the first argument names. -/
def main (args : List String) : IO UInt32 := do
  match args with
  | name :: rest =>
    match LintHooks.Hook.ofName? name with
    | some hook => pure (UInt32.ofNat (← LintHooks.CommandLine.runHook hook rest))
    | none =>
      IO.eprintln LintHooks.CommandLine.usage
      pure 2
  | [] =>
    IO.eprintln LintHooks.CommandLine.usage
    pure 2
