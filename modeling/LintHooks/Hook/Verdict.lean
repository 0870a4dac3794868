import LintHooks.Hook.Basic
import LintHooks.Terminal
import LintHooks.Text.Class
import LintHooks.Text.Lines
set_option autoImplicit false

/-!
# Hooks: verdicts

Whether a run of a tool has found something, and what is shown of the runs that
have.  Most tools say so by their exit status; some have to be read.
-/

namespace LintHooks.Hook

/-! ## Reading output -/

/-- The lines of a text without those that hold a phrase; all others stay as they are. -/
def withoutPhrase (phrase : String) (s : String) : String :=
  String.ofList
    ((Text.pieces s.toList).filter fun line => !Text.occurs phrase.toList line).flatten

/-- What cppcheck says wherever it does not see the system's headers. -/
def missingIncludes : String := "Cppcheck cannot find all the include files"

/-- What include-what-you-use says of a file that needs no change. -/
def correctIncludes : String := "has correct #includes/fwd-decls"

/-- Whether a text says that a number of errors was generated. -/
def countsErrors : List Char → Bool
  | [] => false
  | c :: s =>
    ((Text.isDigit c || c = ',') &&
      ((Text.after? " error generated.".toList s).isSome ||
        (Text.after? " errors generated.".toList s).isSome))
    || countsErrors s

/-- An output without what is only noise. -/
def cleaned (h : Hook) (o : ProcessOutput) : ProcessOutput :=
  match h with
  | .cppcheck => { o with stderr := withoutPhrase missingIncludes o.stderr }
  | _ => o

/-- Whether a run has found something. -/
def failed (h : Hook) (o : ProcessOutput) : Bool :=
  match h with
  | .clangTidy => !o.success || (o.stdout ≠ "" && countsErrors o.stderr.toList)
  | .includeWhatYouUse =>
    !Text.occurs correctIncludes.toList o.stdout.toList && o.stdout ≠ ""
  | _ => !o.success

/-! ## Reports -/

/-- The lines of an output that are worth showing: no empty ones and no comments. -/
def violationLines (o : ProcessOutput) : List String :=
  (Text.linesOf o.stdout ++ Text.linesOf o.stderr).filter fun line =>
    line ≠ "" && line.toList.head? ≠ some '#'

/-- What is worth showing of several outputs, one line after the other. -/
def violations (os : List ProcessOutput) : String :=
  String.join ((os.flatMap violationLines).map fun line => line ++ "\n")

/-- Shows the runs that have found something. -/
def report (h : Hook) (failures : List ProcessOutput) : Action Unit :=
  match h with
  | .includeWhatYouUse =>
    let text := violations failures
    if text = "" then pure () else Terminal.block "Include-What-You-Use violations found" text
  | _ => failures.forM ProcessOutput.echo

end LintHooks.Hook
