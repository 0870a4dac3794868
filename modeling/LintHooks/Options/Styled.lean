set_option autoImplicit false

/-!
# Options: styled text

The help and the messages about options are made of parts.  The role of a part
decides how it looks where colors are on; without colors only the text counts.
-/

namespace LintHooks

/-- A part of a text, by the role it plays. -/
inductive Part where
  | plain (s : String)
  /-- The word that opens a message. -/
  | alarm (s : String)
  /-- Something to be typed as it stands. -/
  | literal (s : String)
  /-- The offending text. -/
  | bad (s : String)
  /-- A text that would be right. -/
  | good (s : String)
  /-- A heading. -/
  | heading (s : String)
  deriving DecidableEq, Repr

namespace Part

/-- The text of a part. -/
def text : Part → String
  | .plain s | .alarm s | .literal s | .bad s | .good s | .heading s => s

/-- What switches the look of a part on; a plain part has none. -/
def look : Part → String
  | .plain _ => ""
  | .alarm _ => "\x1b[1m\x1b[31m"
  | .literal _ => "\x1b[1m"
  | .bad _ => "\x1b[33m"
  | .good _ => "\x1b[32m"
  | .heading _ => "\x1b[1m\x1b[4m"

/-- A part as it is written. -/
def render (colored : Bool) (p : Part) : String :=
  if colored && p.look ≠ "" then p.look ++ p.text ++ "\x1b[0m" else p.text

/-- A text of several parts as it is written. -/
def renderAll (colored : Bool) (ps : List Part) : String := String.join (ps.map (render colored))

/-- The width of a text of several parts. -/
def width (ps : List Part) : Nat := ps.foldl (fun n p => n + p.text.length) 0

end Part

end LintHooks
