import LintHooks.Hook.Formatting
import LintHooks.Options.Help
import LintHooks.Options.Parse
import LintHooks.Settings.Dump
import LintHooks.Settings.Load
set_option autoImplicit false

/-!
# Hooks: the command

A hook is a command with arguments that ends with a status.  It is zero if the help
or the settings were shown, or if the tool has found nothing; otherwise it lies
between 1 and 255.
-/

namespace LintHooks.Hook

/-- Runs the tool of a hook on the target files. -/
def run (hook : Hook) : ActionOn Runner Bool :=
  match hook with
  | .clangFormat => Formatting.run
  | _ => Runner.runTool hook

/-- The status for an exit code: what is no status counts as a plain failure. -/
def statusOf (code : Int) : Nat := if 0 ≤ code ∧ code ≤ 255 then code.toNat else 1

/-- The filter of the log: the one that the environment asks for, if it can be read. -/
def logFilter (h : Host) (verbose : Bool) : LogFilter :=
  ((h.env "RUST_LOG").bind LogFilter.parse?).getD (.standard verbose)

/-- Makes the target files and the project ready, runs the tool and tells whether it has found
something. -/
def lint (hook : Hook) (i : Invocation) (s : Settings) : Action Bool := do
  let r ← Runner.ofInvocation hook i s
  let (found, _) ← (do Runner.prepare hook; run hook : ActionOn Runner Bool).startingFrom r
  pure found

/-- What a hook does with its options.  The result is its status. -/
def act (hook : Hook) (i : Invocation) (o : HookOptions) : Action Nat := do
  let s ← Settings.loadLayered o.config o.layer
  if o.dumpToml then
    Action.print s.dump
    pure 0
  else
    pure (if ← lint hook i s then 1 else 0)

/-- Shows a failure.  The result is the status it leads to. -/
def showFailure (f : Failure) : Action Nat :=
  match f with
  | .report r => do
    Terminal.report r
    pure (statusOf r.exitCode)
  | f => do
    Terminal.error f.chain
    pure 1

/-- Shows the help or what is wrong with the options.  The result is the status. -/
def showOptionError (hook : Hook) (e : OptionError) : Action Nat := do
  let h ← Action.host
  let write := Part.renderAll h.colored
  if e.isHelp then Action.print (write (Help.parts hook.commandName hook.name h.env))
  else Action.printError (write (e.parts hook.commandName))
  pure e.exitCode

/-- Sets up colors and the log. -/
def openLog (o : HookOptions) : Action Unit :=
  modify fun h => { h with plain := h.plain || o.noColor, log := some (logFilter h o.hookVerbose) }

/-- The whole command of a hook.  The result is its status. -/
def command (hook : Hook) (args : List String) : Action Nat := do
  let i := Invocation.sort args
  let h ← Action.host
  match HookOptions.parse h.isExecutable h.env i.hookArgs with
  | .error e => showOptionError hook e
  | .ok o =>
    openLog o
    match ← (act hook i o).outcome with
    | .ok status => pure status
    | .error f => showFailure f

end LintHooks.Hook
