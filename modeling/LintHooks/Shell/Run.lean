import LintHooks.Shell.Condition
import LintHooks.Shell.Expansion
import LintHooks.Shell.Printf
import LintHooks.Shell.Script
set_option autoImplicit false

/-!
# Shell: running commands

A command changes files and variables, writes to its streams and has a status.
How other programs run is given as a function.
-/

namespace LintHooks.Shell

/-- Where what is written goes. -/
inductive Sink where
  | output
  | errors
  | file (loc : Location)
  | nowhere
  deriving DecidableEq, Repr, Inhabited

/-- The streams of a command. -/
structure Streams where
  output : Sink := .output
  errors : Sink := .errors
  deriving Repr, Inhabited

/-- What commands act on. -/
structure Machine where
  files : FileSystem
  workDir : Location
  scope : Scope
  output : ByteArray := .empty
  errors : ByteArray := .empty
  deriving Inhabited

/-- How a script goes on after a command. -/
inductive Flow where
  | on
  /-- Out of a number of loops. -/
  | leave (loops : Nat)
  /-- Out of a number of loops but one, and on with that one. -/
  | again (loops : Nat)
  | exit (code : Nat)
  /-- A signal has ended the script. -/
  | killed
  deriving DecidableEq, Repr, Inhabited

/-- What another program leaves behind. -/
structure Ran where
  files : FileSystem
  output : ByteArray
  errors : ByteArray
  status : Nat

/-- How other programs run: by name and arguments, from a directory. -/
abbrev Programs : Type := FileSystem → Location → String → List String → Except OsError Ran

namespace Machine

/-- Sets the status of the last command. -/
def setStatus (m : Machine) (n : Nat) : Machine := { m with scope := { m.scope with status := n } }

/-- Sets the status to success or failure. -/
def setOk (m : Machine) (ok : Bool) : Machine := m.setStatus (if ok then 0 else 1)

/-- Whether the last command has succeeded. -/
def ok (m : Machine) : Bool := m.scope.status == 0

/-- Writes bytes to a sink. -/
def write (m : Machine) (sink : Sink) (bytes : ByteArray) : Machine :=
  match sink with
  | .output => { m with output := m.output ++ bytes }
  | .errors => { m with errors := m.errors ++ bytes }
  | .file loc => { m with files := m.files.append loc bytes }
  | .nowhere => m

/-- Writes an error message of the shell. -/
def complain (m : Machine) (s : Streams) (line : Nat) (message : String) : Machine :=
  m.write s.errors
    (Text.encode (m.scope.name ++ ": " ++ toString line ++ ": " ++ message ++ "\n"))

end Machine

/-- Why a file cannot be written. -/
def reasonText : OsError → String
  | .permissionDenied => "Permission denied"
  | .isADirectory => "Is a directory"
  | .tooManyLinks => "Too many levels of symbolic links"
  | _ => "Directory nonexistent"

/-- Opens the target of a redirection. -/
def openTarget (m : Machine) (s : Streams) (line : Nat) (t : Target) : Machine × Option Sink :=
  match t with
  | .stream 1 => (m, some s.output)
  | .stream 2 => (m, some s.errors)
  | .stream _ => (m, some .nowhere)
  | .file w add =>
    let path := wordText m.scope w
    if path = "/dev/null" then (m, some .nowhere)
    else
      let opened :=
        if add then m.files.openOrCreate m.workDir path else m.files.truncate m.workDir path
      match opened with
      | .ok (files, loc) => ({ m with files }, some (.file loc))
      | .error e =>
        ((m.complain s line ("cannot create " ++ path ++ ": " ++ reasonText e)).setStatus 2, none)

/-- Opens the targets of redirections one after the other. -/
def redirect (m : Machine) (s : Streams) : List Redirect → Machine × Option Streams
  | [] => (m, some s)
  | r :: rs =>
    match openTarget m s r.line r.target with
    | (m, none) => (m, none)
    | (m, some sink) =>
      let s := if r.stream = 1 then { s with output := sink }
        else if r.stream = 2 then { s with errors := sink } else s
      redirect m s rs

/-- Whether an argument of `kill` names a signal that ends a process. -/
def endsProcess (signal : String) : Bool :=
  signal ∉ ["-0", "-17", "-18", "-CHLD", "-CONT", "-SIGCHLD", "-SIGCONT"]

/-- Runs a command of the shell's own, if a name is that of one. -/
def builtin? (m : Machine) (s : Streams) (line : Nat) (name : String) (args : List String) :
    Option (Flow × Machine) :=
  match name with
  | ":" | "true" => some (.on, m.setOk true)
  | "false" => some (.on, m.setOk false)
  | "echo" => some (.on, (m.write s.output (echoBytes args).toByteArray).setOk true)
  | "printf" => some (.on, (m.write s.output (printfBytes args).toByteArray).setOk true)
  | "pwd" =>
    some (.on, (m.write s.output (Text.encode (FileSystem.render m.workDir ++ "\n"))).setOk true)
  | "exit" =>
    match args with
    | [] => some (.exit (m.scope.status % 256), m)
    | a :: _ =>
      match a.toNat? with
      | some n => some (.exit (n % 256), m)
      | none => some (.exit 2, m.complain s line ("exit: Illegal number: " ++ a))
  | "break" => some (.leave ((args.head?.bind String.toNat?).getD 1), m.setOk true)
  | "continue" => some (.again ((args.head?.bind String.toNat?).getD 1), m.setOk true)
  | "unset" => some (.on, { m with scope := args.foldl Scope.forget m.scope }.setOk true)
  | "read" =>
    some (.on, { m with scope := args.foldl (fun sc a => sc.setVariable a "") m.scope }.setOk false)
  | "shift" =>
    let n := (args.head?.bind String.toNat?).getD 1
    some (.on, { m with scope := { m.scope with args := m.scope.args.drop n } }.setOk true)
  | "cd" =>
    match m.files.locate m.workDir (args.headD "/") with
    | .ok loc =>
      if (m.files.get? loc).any Entry.isDirectory then some (.on, { m with workDir := loc }.setOk true)
      else some (.on, (m.complain s line ("cd: can't cd to " ++ args.headD "")).setStatus 2)
    | .error _ => some (.on, (m.complain s line ("cd: can't cd to " ++ args.headD "")).setStatus 2)
  | "kill" =>
    let (signal, targets) := match args with
      | a :: more => if a.toList.head? = some '-' then (a, more) else ("-15", args)
      | [] => ("-15", [])
    if targets.contains (toString m.scope.processId) then
      if endsProcess signal then some (.killed, m) else some (.on, m.setOk true)
    else some (.on, m.setOk false)
  | "test" | "[" =>
    let args := if name = "[" then args.dropLast else args
    match condition m.files m.workDir args with
    | .ok b => some (.on, m.setOk b)
    | .error e => some (.on, (m.complain s line (name ++ ": " ++ e)).setStatus 2)
  | _ => none

/-- Runs another program. -/
def external (programs : Programs) (m : Machine) (s : Streams) (line : Nat) (name : String)
    (args : List String) : Machine :=
  match programs m.files m.workDir name args with
  | .ok ran =>
    let m := { m with files := ran.files }
    ((m.write s.output ran.output).write s.errors ran.errors).setStatus ran.status
  | .error .notFound => (m.complain s line (name ++ ": not found")).setStatus 127
  | .error _ => (m.complain s line (name ++ ": Permission denied")).setStatus 126

/-- Runs a simple command: sets variables, or runs what its first word names. -/
def simple (programs : Programs) (m : Machine) (s : Streams) (line : Nat)
    (assignments : List (String × Word)) (words : List Word) : Flow × Machine :=
  let fields := words.flatMap (wordFields m.scope)
  let scope := assignments.foldl (fun sc a => sc.setVariable a.1 (wordText sc a.2)) m.scope
  let m := { m with scope }
  match fields with
  | [] => (.on, m.setOk true)
  | name :: args =>
    match builtin? m s line name args with
    | some result => result
    | none => (.on, external programs m s line name args)

/-- Whether a command is one of those of the shell's own that end the script where a stream of
theirs cannot be opened. -/
def isSpecial : Command → Bool
  | .simple _ _ [] => true
  | .simple _ _ (w :: _) =>
    [":", "break", "continue", "exit", "shift", "unset"].any fun name => w == [.plain name.toList]
  | _ => false

/-- How a loop goes on after a pass: it is left, begun again, or neither. -/
def Flow.afterPass : Flow → Flow
  | .leave (n + 2) => .leave (n + 1)
  | .leave _ => .leave 0
  | .again (n + 2) => .again (n + 1)
  | .again _ => .on
  | flow => flow

/-- How the script goes on after a loop. -/
def Flow.afterLoop : Flow → Flow
  | .leave 0 => .on
  | flow => flow

/-- What to do after a command, if the script goes on. -/
@[inline] def andOn (result : Flow × Machine) (next : Machine → Flow × Machine) : Flow × Machine :=
  match result with
  | (.on, m) => next m
  | ended => ended

/-- Runs a command.  `fuel` bounds how many commands may be begun one inside or after the other;
a script that needs more is killed. -/
def run (programs : Programs) : (fuel : Nat) → Streams → Command → Machine → Flow × Machine
  | 0, _, _, m => (.killed, m)
  | fuel + 1, s, c, m =>
    match c with
    | .simple line assignments words => simple programs m s line assignments words
    | .redirected c rs =>
      match redirect m s rs with
      | (m, some s) => run programs fuel s c m
      | (m, none) => (if isSpecial c then .exit 2 else .on, m)
    | .andThen a b => andOn (run programs fuel s a m) (run programs fuel s b)
    | .ifOk a b =>
      andOn (run programs fuel s a m) fun m => if m.ok then run programs fuel s b m else (.on, m)
    | .ifNot a b =>
      andOn (run programs fuel s a m) fun m => if m.ok then (.on, m) else run programs fuel s b m
    | .negated a => andOn (run programs fuel s a m) fun m => (.on, m.setOk !m.ok)
    | .branch condition yes no =>
      andOn (run programs fuel s condition m) fun m =>
        if m.ok then run programs fuel s yes m
        else run programs fuel s no (m.setOk true)
    | .loop stopOn condition body =>
      match run programs fuel s condition m with
      | (.on, m) =>
        if m.ok == stopOn then (.on, m.setOk true)
        else
          match run programs fuel s body m with
          | (flow, m) =>
            match flow.afterPass with
            | .on => run programs fuel s (.loop stopOn condition body) m
            | flow => (flow.afterLoop, m)
      | (flow, m) => (flow.afterPass.afterLoop, m)
    | .each name words body =>
      let values := match words with
        | some ws => ws.flatMap (wordFields m.scope)
        | none => m.scope.args
      let (flow, m) := values.foldl
        (fun result v => andOn result fun m =>
          let (flow, m) := run programs fuel s body { m with scope := m.scope.setVariable name v }
          (flow.afterPass, m))
        (.on, m.setOk true)
      (flow.afterLoop, m)
    | .choose subject patterns body rest =>
      let text := (wordText m.scope subject).toList
      if patterns.any fun p => fits (wordPattern m.scope p) text then
        run programs fuel s body (m.setOk true)
      else run programs fuel s rest (m.setOk true)
    | .nothing => (.on, m)

end LintHooks.Shell
