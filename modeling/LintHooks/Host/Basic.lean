import LintHooks.Failure
import LintHooks.Host.Lock
import LintHooks.Host.Log
import LintHooks.Text.Lines
import LintHooks.Text.Utf8
set_option autoImplicit false

/-!
# Host: where a hook runs

A hook acts on a host: its files, working directory, environment, advisory locks
and standard streams.  What another program does is not described here: it is a
function from a launch and a host to what comes out of it, and every statement
about a hook can be made for all such functions.  A program is run to its end and
its output is kept.  One that fails is no failure of the hook; one that cannot be
started is.
-/

namespace LintHooks

/-- What a hook acts on. -/
structure Host where
  files : FileSystem := {}
  /-- The working directory. -/
  workDir : Location := []
  environment : List (String × String) := []
  locks : LockTable := {}
  /-- The number of the next file that is opened to be locked. -/
  nextHandle : Nat := 0
  stdout : String := ""
  stderr : String := ""
  /-- Which messages of the log are shown; nothing is before the log is opened. -/
  log : Option LogFilter := none
  /-- Whether colors are switched off for good. -/
  plain : Bool := false
  /-- The number by which the running process is known. -/
  processId : Nat := 1
  deriving Inhabited

namespace Host

/-- The value of an environment variable. -/
def env (h : Host) (name : String) : Option String := h.environment.lookup name

/-- The working directory as a path. -/
def workPath (h : Host) : String := FileSystem.render h.workDir

/-- Whether output is colored: only where it is asked for, as no stream is a terminal. -/
def colored (h : Host) : Bool := !h.plain && (h.env "CLICOLOR_FORCE").getD "0" ≠ "0"

def isFile (h : Host) (path : String) : Bool := h.files.isFile h.workDir path

def isDirectory (h : Host) (path : String) : Bool := h.files.isDirectory h.workDir path

def pathExists (h : Host) (path : String) : Bool := h.files.pathExists h.workDir path

def isExecutable (h : Host) (path : String) : Bool := h.files.isExecutable h.workDir path

/-- The absolute form of a path, without looking at any file. -/
def absolute? (h : Host) (path : String) : Option String := Path.absolute? h.workPath path

/-- The content of a file as text. -/
def readText (h : Host) (path : String) : Except OsError String := do
  match Text.decode? (← h.files.read h.workDir path) with
  | some s => .ok s
  | none => .error .notText

end Host

/-- What comes out of a program that ran. -/
structure ProcessOutput where
  stdout : String := ""
  stderr : String := ""
  /-- The exit status; minus one after a signal. -/
  exitCode : Int := 0
  deriving DecidableEq, Repr, Inhabited

/-- Whether a program succeeded. -/
def ProcessOutput.success (o : ProcessOutput) : Bool := o.exitCode == 0

/-- A program to be run. -/
structure Launch where
  program : String
  args : List String
  /-- The directory to run in, if it is not the working directory. -/
  directory : Option String := none
  deriving DecidableEq, Repr, Inhabited

/-- How programs run. -/
abbrev Launcher : Type := Launch → Host → Except OsError ProcessOutput × Host

/-- Something a hook does: it may run programs, change the host and fail. -/
abbrev Action (α : Type) : Type := ReaderT Launcher (ExceptT Failure (StateM Host)) α

namespace Action

/-- Ends an action with a failure. -/
def fail {α : Type} (f : Failure) : Action α := throw f

/-- Ends an action with a report. -/
def report {α : Type} (r : Report) : Action α := throw (.report r)

/-- The host as it is. -/
def host : Action Host := get

/-- Writes on standard output. -/
def print (s : String) : Action Unit := modify fun h => { h with stdout := h.stdout ++ s }

/-- Writes on standard error. -/
def printError (s : String) : Action Unit := modify fun h => { h with stderr := h.stderr ++ s }

/-- Runs an action on a host. -/
def runOn {α : Type} (t : Action α) (launcher : Launcher) (h : Host) : Except Failure α × Host :=
  t launcher h

/-- The outcome of an action instead of its failure. -/
def outcome {α : Type} (t : Action α) : Action (Except Failure α) := fun launcher h =>
  match t launcher h with
  | (result, h) => (.ok result, h)

/-- The line of a message in the log. -/
def logLine (colored : Bool) (level : LogLevel) (message : String) : String :=
  let tag :=
    if colored then "\x1b[" ++ toString level.color ++ "m" ++ level.tag ++ "\x1b[0m" else level.tag
  tag ++ " " ++ spellControls message ++ "\n"

/-- Puts a message into the log. -/
def tell (topic : LogTopic) (level : LogLevel) (message : String) : Action Unit := do
  let h ← host
  match h.log with
  | some filter =>
    if filter.shows topic level then printError (logLine h.colored level message)
  | none => pure ()

def debug (topic : LogTopic) (message : String) : Action Unit := tell topic .debug message

def info (topic : LogTopic) (message : String) : Action Unit := tell topic .info message

/-- Runs a program and gives what the operating system says about it. -/
def launch (l : Launch) : Action (Except OsError ProcessOutput) := fun launcher h =>
  match launcher l h with
  | (result, h) => (.ok result, h)

end Action

namespace Launch

/-- How long a program has run, as the log tells it.  Time is not measured here. -/
def elapsed : String := "0.00ns"

/-- What the log says about a program that has ended. -/
def notes (l : Launch) (o : ProcessOutput) : List String :=
  ["command `" ++ l.program ++ " " ++ String.intercalate " " l.args ++ "` exited with "
      ++ toString o.exitCode ++ " after " ++ elapsed]
    ++ (Text.linesOf o.stdout).map (fun line => "(stdout) " ++ line)
    ++ (Text.linesOf o.stderr).map fun line => "(stderr) " ++ line

/-- Runs a program to its end. -/
def run (l : Launch) : Action ProcessOutput := do
  match ← Action.launch l with
  | .error e => Action.fail (.executing l.program e)
  | .ok o =>
    (notes l o).forM (Action.debug .process)
    pure o

end Launch

/-- Copies what a program has written to the streams of the hook. -/
def ProcessOutput.echo (o : ProcessOutput) : Action Unit := do
  Action.print o.stdout
  Action.printError o.stderr

end LintHooks
