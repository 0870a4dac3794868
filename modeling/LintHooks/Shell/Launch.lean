import LintHooks.Host.Basic
import LintHooks.Shell.Run
set_option autoImplicit false

/-!
# Shell: launching programs

How a program is found and run on a host: a path is taken as it is, a mere name is
looked for along the search path; a script is run by the interpreter that its first
line names.  The host has a shell and one other program of its own.
-/

namespace LintHooks.Shell

/-- The shell of a host. -/
def shellPath : Location := ["bin", "sh"]

/-- The program of a host that copies files to its output. -/
def copyPath : Location := ["bin", "cat"]

/-- The interpreter in the first line of a script, with its argument if it has one. -/
def interpreter? (content : ByteArray) : Option (String × List String) :=
  match (Text.decodeLossy content).toList with
  | '#' :: '!' :: s =>
    let blank (c : Char) : Bool := c = ' ' || c = '\t'
    let line := Text.trim blank (s.takeWhile (· ≠ '\n'))
    let name := line.takeWhile fun c => !blank c
    let arg := Text.trim blank (line.dropWhile fun c => !blank c)
    if name = [] then none
    else some (String.ofList name, if arg = [] then [] else [String.ofList arg])
  | _ => none

/-- What runs when a file is executed. -/
inductive Program where
  | shell
  | copy
  | script (interpreter : String) (args : List String)
  deriving DecidableEq, Repr, Inhabited

/-- What runs when the file at a path is executed, or why nothing does. -/
def program? (fs : FileSystem) (workDir : Location) (path : String) : Except OsError Program := do
  let loc ← fs.locate workDir path
  match fs.get? loc with
  | some (.file content true) =>
    if loc = shellPath then .ok .shell
    else if loc = copyPath then .ok .copy
    else match interpreter? content with
      | some (name, args) => .ok (.script name args)
      | none => .error .noExecutableFormat
  | some _ => .error .permissionDenied
  | none => .error .notFound

/-- The content of files one after the other, with a message for each that cannot be read. -/
def copyFiles (fs : FileSystem) (workDir : Location) (name : String) (paths : List String) : Ran :=
  paths.foldl (fun ran path =>
    if path = "-" then ran
    else match fs.read workDir path with
    | .ok bytes => { ran with output := ran.output ++ bytes }
    | .error e =>
      let reason := match e with
        | .isADirectory => "Is a directory"
        | .notADirectory => "Not a directory"
        | _ => "No such file or directory"
      { ran with
        errors := ran.errors ++ Text.encode (name ++ ": " ++ path ++ ": " ++ reason ++ "\n")
        status := 1 })
    ⟨fs, .empty, .empty, 0⟩

/-- How many commands a script may run. -/
def scriptFuel : Nat := 1000000

/-- The status that a script leaves: a signal gives none. -/
def statusOf (flow : Flow) (m : Machine) : Option Nat :=
  match flow with
  | .exit n => some n
  | .killed => none
  | _ => some m.scope.status

/-- What a process leaves behind; no status after a signal. -/
structure Ended where
  files : FileSystem
  output : ByteArray
  errors : ByteArray
  status : Option Nat

/-- What a process that ended leaves to the script that has started it. -/
def Ended.toRan (e : Ended) : Ran := ⟨e.files, e.output, e.errors, e.status.getD 137⟩

/-- The environment and number of a new process. -/
structure Setting where
  environment : List (String × String)
  processId : Nat

/-- Runs the text of a script. -/
def runText (programs : Programs) (setting : Setting) (fs : FileSystem) (workDir : Location)
    (name : String) (args : List String) (content : ByteArray) : Ended :=
  let text := (Text.decodeLossy content).toList
  match parseScript? text with
  | none =>
    ⟨fs, .empty, Text.encode (name ++ ": 1: Syntax error\n"), some 2⟩
  | some c =>
    let scope : Scope :=
      { bindings := setting.environment, name, args, processId := setting.processId }
    let (flow, m) := run programs scriptFuel {} c { files := fs, workDir, scope }
    ⟨m.files, m.output, m.errors, statusOf flow m⟩

/-- Runs the shell with arguments: the first one is a script. -/
def runShell (programs : Programs) (setting : Setting) (fs : FileSystem) (workDir : Location)
    (name : String) (args : List String) : Ended :=
  match args with
  | [] => ⟨fs, .empty, .empty, some 0⟩
  | "-c" :: text :: more =>
    runText programs setting fs workDir (more.headD name) more.tail (Text.encode text)
  | path :: more =>
    match fs.read workDir path with
    | .ok content => runText programs setting fs workDir path more content
    | .error _ =>
      let message := name ++ ": 0: cannot open " ++ path ++ ": No such file\n"
      ⟨fs, .empty, Text.encode message, some 2⟩

/-- The paths under which a program may be found. -/
def candidates (setting : Setting) (name : String) : List String :=
  if name.toList.contains '/' then [name]
  else
    (Path.searchList ((setting.environment.lookup "PATH").getD "")).map fun dir =>
      if dir = "" then "./" ++ name else Path.join dir name

/-- Executes the file at a path.  `depth` bounds how many interpreters and scripts may be
involved. -/
def execute (setting : Setting) : (depth : Nat) → FileSystem → Location → String → List String →
    Except OsError Ended
  | 0, _, _, _, _ => .error .tooManyLinks
  | depth + 1, fs, workDir, path, args =>
    let programs : Programs := fun fs workDir name args =>
      (start depth fs workDir args .notFound (candidates setting name)).map Ended.toRan
    match program? fs workDir path with
    | .error e => .error e
    | .ok .shell => .ok (runShell programs setting fs workDir path args)
    | .ok .copy =>
      let ran := copyFiles fs workDir path args
      .ok ⟨ran.files, ran.output, ran.errors, some ran.status⟩
    | .ok (.script name extra) =>
      execute setting depth fs workDir name (extra ++ path :: args)
where
  /-- Executes the first candidate that is there; a forbidden one is remembered. -/
  start (depth : Nat) (fs : FileSystem) (workDir : Location) (args : List String)
      (sofar : OsError) : List String → Except OsError Ended
    | [] => .error sofar
    | path :: more =>
      match execute setting depth fs workDir path args with
      | .ok ended => .ok ended
      | .error .notFound => start depth fs workDir args sofar more
      | .error .notADirectory => start depth fs workDir args sofar more
      | .error .permissionDenied => start depth fs workDir args .permissionDenied more
      | .error e => .error e

/-- How many interpreters and scripts may start each other. -/
def launchDepth : Nat := 16

/-- The exit code of a status: minus one after a signal. -/
def exitCodeOf : Option Nat → Int
  | some n => n
  | none => -1

/-- Whether a program, an argument or the directory of a launch holds a NUL. -/
def holdsNul (l : Launch) : Bool :=
  (l.program :: l.args ++ l.directory.toList).any fun s => s.toList.contains '\x00'

/-- The directory in which a program begins. -/
def startDir (l : Launch) (h : Host) : Except OsError Location :=
  if holdsNul l then .error .nulInCommand
  else match l.directory with
    | none => .ok h.workDir
    | some dir =>
      match h.files.locate h.workDir dir with
      | .error e => .error e
      | .ok loc =>
        if (h.files.get? loc).any Entry.isDirectory then .ok loc
        else if (h.files.get? loc).isSome then .error .notADirectory else .error .notFound

/-- Runs programs on a host. -/
def launcher : Launcher := fun l h =>
  match startDir l h with
  | .error e => (.error e, h)
  | .ok workDir =>
    let setting : Setting := ⟨h.environment, h.processId + 1⟩
    match execute.start setting launchDepth h.files workDir l.args .notFound
        (candidates setting l.program) with
    | .error e => (.error e, h)
    | .ok ended =>
      (.ok
        { stdout := Text.decodeLossy ended.output
          stderr := Text.decodeLossy ended.errors
          exitCode := exitCodeOf ended.status },
       { h with files := ended.files })

end LintHooks.Shell
