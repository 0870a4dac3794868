import LintHooks.Text.Basic
set_option autoImplicit false

/-!
# Paths

A path is a text.  Most operations keep the text as it was given; two paths name
the same place on paper when their components agree, that is up to repeated
separators, single dots after the first component and a separator at the end.
-/

namespace LintHooks.Path

/-- One component of a path. -/
inductive Component where
  | root
  /-- A dot at the very beginning. -/
  | here
  | up
  | name (text : String)
  deriving DecidableEq, Repr, Inhabited

/-- The pieces between separators, empty ones included. -/
def segments (p : String) : List String := (p.toList.splitOn '/').map String.ofList

/-- The directories of a search path, which stand between colons. -/
def searchList (s : String) : List String := (s.toList.splitOn ':').map String.ofList

/-- Whether a path begins at the root. -/
def isAbsolute (p : String) : Bool := p.toList.head? == some '/'

/-- A piece after the beginning of a path: a dot is no component there. -/
def Component.ofSegment? (s : String) : Option Component :=
  if s = "" ∨ s = "." then none else if s = ".." then some .up else some (.name s)

/-- The components of a path. -/
def components (p : String) : List Component :=
  let rest := (segments p).filterMap Component.ofSegment?
  if isAbsolute p then .root :: rest
  else if (segments p).head? = some "." then .here :: rest
  else rest

/-- Two paths with the same components. -/
def same (p q : String) : Bool := components p == components q

/-- `q` seen from the directory `p`: the text of `q` after that of `p` and one separator.
An absolute `q` stands for itself, and an empty `p` adds nothing. -/
def join (p q : String) : String :=
  if isAbsolute q then q
  else if p = "" ∨ p.toList.getLast? = some '/' then p ++ q
  else p ++ "/" ++ q

/-- The text read from its end, without the separators and dots that name no component. -/
def trimReversed : List Char → List Char
  | ['/'] => ['/']
  | '/' :: r => trimReversed r
  | '.' :: '/' :: r => trimReversed ('/' :: r)
  | r => r
termination_by r => r.length

/-- The path without its last component, if it has one that can be dropped. -/
def parent? (p : String) : Option String :=
  match trimReversed p.toList.reverse with
  | [] => none
  | ['/'] => none
  | r => some (String.ofList (trimReversed (r.dropWhile (· != '/'))).reverse)

/-- The absolute form of a path without looking at any file: dots and repeated separators
go, `..` and a separator at the end stay, and exactly two separators in front stay two.
The empty path has none. -/
def absolute? (workDir p : String) : Option String :=
  if p = "" then none
  else
    let names := (segments p).filter fun s => s != "" && s != "."
    let start :=
      if !isAbsolute p then workDir
      else match p.toList with
        | '/' :: '/' :: '/' :: _ => "/"
        | '/' :: '/' :: _ => "//"
        | _ => "/"
    let path := names.foldl join start
    some (if p.toList.getLast? = some '/' then join path "" else path)

/-- A relative path resolved against a directory component by component, so that dots and
repeated separators of the relative path go. -/
def resolveAgainst (dir p : String) : String :=
  if isAbsolute p then p
  else ((segments p).filter fun s => s != "" && s != ".").foldl join dir

end LintHooks.Path
