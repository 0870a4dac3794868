import LintHooks.Path
set_option autoImplicit false

/-!
# File systems

A file system is a finite map from locations to entries.  A location is the list
of names from the root; the root itself is a directory and is not stored.  A path
text leads to a location by walking its names from a working directory, through
the symbolic links on the way.
-/

namespace LintHooks

/-- Why the operating system refused something. -/
inductive OsError where
  | notFound
  | permissionDenied
  | noExecutableFormat
  | alreadyExists
  | notADirectory
  | isADirectory
  | directoryNotEmpty
  | tooManyLinks
  /-- A path holds a NUL. -/
  | nulInPath
  /-- A command line holds a NUL. -/
  | nulInCommand
  /-- The bytes of a file are no text. -/
  | notText
  /-- The empty path has no absolute form. -/
  | emptyPath
  deriving DecidableEq, Repr, Inhabited

/-- The wording of a refusal. -/
def OsError.message : OsError → String
  | .notFound => "No such file or directory (os error 2)"
  | .noExecutableFormat => "Exec format error (os error 8)"
  | .permissionDenied => "Permission denied (os error 13)"
  | .alreadyExists => "File exists (os error 17)"
  | .notADirectory => "Not a directory (os error 20)"
  | .isADirectory => "Is a directory (os error 21)"
  | .directoryNotEmpty => "Directory not empty (os error 39)"
  | .tooManyLinks => "Too many levels of symbolic links (os error 40)"
  | .nulInPath => "file name contained an unexpected NUL byte"
  | .nulInCommand => "nul byte found in provided data"
  | .notText => "stream did not contain valid UTF-8"
  | .emptyPath => "cannot make an empty path absolute"

/-- The names that lead from the root to an entry. -/
abbrev Location := List String

/-- What a location holds. -/
inductive Entry where
  | directory
  | file (content : ByteArray) (executable : Bool)
  /-- A symbolic link with the text it points to. -/
  | link (target : String)
  deriving Inhabited

instance : DecidableEq Entry
  | .directory, .directory => isTrue rfl
  | .file c x, .file d y =>
    decidable_of_iff (c.data = d.data ∧ x = y)
      (by cases c; cases d; simp only [Entry.file.injEq, ByteArray.mk.injEq])
  | .link s, .link t => decidable_of_iff (s = t) (by simp only [Entry.link.injEq])
  | .directory, .file .. => isFalse nofun
  | .directory, .link _ => isFalse nofun
  | .file .., .directory => isFalse nofun
  | .file .., .link _ => isFalse nofun
  | .link _, .directory => isFalse nofun
  | .link _, .file .. => isFalse nofun

/-- Whether an entry is a directory. -/
def Entry.isDirectory : Entry → Bool
  | .directory => true
  | _ => false

/-- A finite map from locations to entries. -/
structure FileSystem where
  entries : List (Location × Entry) := []
  deriving Inhabited

namespace FileSystem

/-- The entry at a location; the root is a directory. -/
def get? (fs : FileSystem) (loc : Location) : Option Entry :=
  if loc = [] then some .directory else fs.entries.lookup loc

/-- The file system with one location changed. -/
def set (fs : FileSystem) (loc : Location) (e : Entry) : FileSystem :=
  ⟨(loc, e) :: fs.entries.filter fun x => x.1 ≠ loc⟩

/-- The file system without a location and everything below it. -/
def eraseTree (fs : FileSystem) (loc : Location) : FileSystem :=
  ⟨fs.entries.filter fun x => ¬ loc <+: x.1⟩

/-- The names directly below a location. -/
def children (fs : FileSystem) (loc : Location) : List String :=
  fs.entries.filterMap fun x =>
    match x.1.getLast? with
    | some name => if x.1.dropLast = loc then some name else none
    | none => none

/-- The text of a location as an absolute path. -/
def render (loc : Location) : String := "/" ++ String.intercalate "/" loc

/-- The names a path text is walked by.  A separator at the end asks for a directory, as a
dot does. -/
def steps (path : String) : List String :=
  let names := (Path.segments path).filter (· ≠ "")
  if path.toList.getLast? = some '/' then names ++ ["."] else names

/-- How a walk treats its last name. -/
structure Walk where
  /-- Whether a link at the end is followed. -/
  follow : Bool := true
  /-- Whether the last name may be missing. -/
  create : Bool := false

/-- Walks names from a directory.  `links` bounds how many links may be followed. -/
def walk (fs : FileSystem) (w : Walk) (links : Nat) (dir : Location) :
    List String → Except OsError Location
  | [] => .ok dir
  | name :: rest =>
    match fs.get? dir with
    | some .directory =>
      if name = "." then walk fs w links dir rest
      else if name = ".." then walk fs w links dir.dropLast rest
      else
        let next := dir ++ [name]
        match fs.get? next with
        | none => if rest = [] ∧ w.create then .ok next else .error .notFound
        | some (.link target) =>
          if rest = [] ∧ !w.follow then .ok next
          else match links with
            | 0 => .error .tooManyLinks
            | n + 1 =>
              if target = "" then .error .notFound
              else walk fs w n (if Path.isAbsolute target then [] else dir) (steps target ++ rest)
        | some _ => walk fs w links next rest
    | _ => .error .notADirectory
termination_by names => (links, names.length)

/-- The location a path leads to from a working directory. -/
def locate (fs : FileSystem) (workDir : Location) (path : String) (w : Walk := {}) :
    Except OsError Location :=
  if path = "" then .error .notFound
  else if path.toList.contains '\x00' then .error .nulInPath
  else walk fs w 40 (if Path.isAbsolute path then [] else workDir) (steps path)

/-- The entry a path leads to, through links. -/
def entry? (fs : FileSystem) (workDir : Location) (path : String) : Option Entry :=
  match fs.locate workDir path with
  | .ok loc => fs.get? loc
  | .error _ => none

def isFile (fs : FileSystem) (workDir : Location) (path : String) : Bool :=
  match fs.entry? workDir path with
  | some (.file _ _) => true
  | _ => false

def isDirectory (fs : FileSystem) (workDir : Location) (path : String) : Bool :=
  (fs.entry? workDir path).any Entry.isDirectory

def pathExists (fs : FileSystem) (workDir : Location) (path : String) : Bool :=
  (fs.entry? workDir path).isSome

/-- Whether a path leads to a file that may be executed. -/
def isExecutable (fs : FileSystem) (workDir : Location) (path : String) : Bool :=
  match fs.entry? workDir path with
  | some (.file _ executable) => executable
  | _ => false

/-- The content of the file a path leads to. -/
def read (fs : FileSystem) (workDir : Location) (path : String) : Except OsError ByteArray := do
  match fs.get? (← fs.locate workDir path) with
  | some (.file content _) => .ok content
  | some .directory => .error .isADirectory
  | _ => .error .notFound

/-- Makes one directory; its parent has to be there. -/
def makeDirectory (fs : FileSystem) (workDir : Location) (path : String) :
    Except OsError FileSystem := do
  let plain := String.ofList (Path.trimReversed path.toList.reverse).reverse
  let loc ← fs.locate workDir plain { follow := false, create := true }
  match fs.get? loc with
  | some _ => .error .alreadyExists
  | none => .ok (fs.set loc .directory)

/-- Makes a directory and those above it that are missing.  `depth` bounds how many. -/
def makeDirectoriesTo (depth : Nat) (fs : FileSystem) (workDir : Location) (path : String) :
    Except OsError FileSystem :=
  match fs.makeDirectory workDir path with
  | .ok made => .ok made
  | .error .notFound =>
    match depth, Path.parent? path with
    | n + 1, some above =>
      if above = "" then .error .notFound
      else do
        let made ← makeDirectoriesTo n fs workDir above
        match made.makeDirectory workDir path with
        | .ok made => .ok made
        | .error e => if made.isDirectory workDir path then .ok made else .error e
    | _, _ => .error .notFound
  | .error e => if fs.isDirectory workDir path then .ok fs else .error e

/-- Makes a directory and those above it that are missing. -/
def makeDirectories (fs : FileSystem) (workDir : Location) (path : String) :
    Except OsError FileSystem :=
  if path = "" then .ok fs
  else makeDirectoriesTo (Path.segments path).length fs workDir path

/-- The location of the file to be written at a path, and whether it is there already. -/
def writable (fs : FileSystem) (workDir : Location) (path : String) :
    Except OsError (Location × Option Entry) := do
  let loc ← fs.locate workDir path { follow := true, create := true }
  match fs.get? loc with
  | some .directory => .error .isADirectory
  | e => .ok (loc, e)

/-- Makes the file at a path empty, creating it if need be. -/
def truncate (fs : FileSystem) (workDir : Location) (path : String) :
    Except OsError (FileSystem × Location) := do
  let (loc, e) ← fs.writable workDir path
  match e with
  | some (.file _ executable) => .ok (fs.set loc (.file .empty executable), loc)
  | _ => .ok (fs.set loc (.file .empty false), loc)

/-- Opens the file at a path, creating it empty if it is missing. -/
def openOrCreate (fs : FileSystem) (workDir : Location) (path : String) :
    Except OsError (FileSystem × Location) := do
  let (loc, e) ← fs.writable workDir path
  match e with
  | some _ => .ok (fs, loc)
  | none => .ok (fs.set loc (.file .empty false), loc)

/-- Adds bytes at the end of the file at a location. -/
def append (fs : FileSystem) (loc : Location) (bytes : ByteArray) : FileSystem :=
  match fs.get? loc with
  | some (.file content executable) => fs.set loc (.file (content ++ bytes) executable)
  | _ => fs

/-- Removes a file or a link; a link is not followed. -/
def removeFile (fs : FileSystem) (workDir : Location) (path : String) :
    Except OsError FileSystem := do
  let loc ← fs.locate workDir path { follow := false }
  match fs.get? loc with
  | some .directory => .error .isADirectory
  | some _ => .ok (fs.eraseTree loc)
  | none => .error .notFound

/-- Removes a directory with everything below it.  A link to a directory is removed and not
followed. -/
def removeTree (fs : FileSystem) (workDir : Location) (path : String) :
    Except OsError FileSystem := do
  let loc ← fs.locate workDir path { follow := false }
  match fs.get? loc with
  | some (.file _ _) => .error .notADirectory
  | some _ => .ok (fs.eraseTree loc)
  | none => .error .notFound

/-- The names in the directory a path leads to. -/
def list (fs : FileSystem) (workDir : Location) (path : String) :
    Except OsError (List String) := do
  let loc ← fs.locate workDir path
  match fs.get? loc with
  | some .directory => .ok (fs.children loc)
  | some _ => .error .notADirectory
  | none => .error .notFound

/-- The absolute path without links, dots and doubled separators of what a path leads to. -/
def canonical? (fs : FileSystem) (workDir : Location) (path : String) : Option String :=
  match fs.locate workDir path with
  | .ok loc => if (fs.get? loc).isSome then some (render loc) else none
  | .error _ => none

/-- Puts an entry at a location and makes the directories above it that are missing. -/
def place (fs : FileSystem) (loc : Location) (e : Entry) : FileSystem :=
  let above := (List.range loc.length).map fun n => loc.take n
  (above.foldl (fun fs d => if (fs.get? d).isSome then fs else fs.set d .directory) fs).set
    loc e

/-- The locations below a directory, relative to it. -/
def below (fs : FileSystem) (loc : Location) : List (Location × Entry) :=
  fs.entries.filterMap fun x =>
    if loc <+: x.1 ∧ x.1 ≠ loc then some (x.1.drop loc.length, x.2) else none

end FileSystem

end LintHooks
