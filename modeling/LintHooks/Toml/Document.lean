import LintHooks.Toml.Reader
set_option autoImplicit false

/-!
# TOML: documents

A document is a list of statements: headers that open a table, and keys with
their values that go into the open one.  Reading takes the statements from the
text; `Builder` gathers them into a table and refuses what contradicts what was
said before.
-/

namespace LintHooks.Toml

/-- A line of a document that says something. -/
inductive Statement where
  | header (path : List String)
  /-- The header of one more table of an array. -/
  | itemHeader (path : List String)
  | pair (path : List String) (v : Value)
  deriving Repr, Inhabited

/-! ## Statements -/

/-- A statement at the beginning of a line, blanks in front of it dropped. -/
def readStatement? (s : List Char) : Option (Statement × List Char) :=
  match s with
  | '[' :: '[' :: s => do
    let (path, s) ← readKey? s
    match s with
    | ']' :: ']' :: s => some (.itemHeader path, s)
    | _ => none
  | '[' :: s => do
    let (path, s) ← readKey? s
    match s with
    | ']' :: s => some (.header path, s)
    | _ => none
  | s => (readPair? (readValue? nestingLimit) s).map fun ((path, v), s) => (.pair path v, s)

/-- The statements of at most `n` lines. -/
def readStatements? : Nat → List Char → Option (List Statement)
  | 0, _ => none
  | n + 1, s =>
    match skipInline s with
    | [] => some []
    | c :: s =>
      if c = '#' ∨ c = '\n' ∨ c = '\r' then do readStatements? n (← lineEnd? (c :: s))
      else do
        let (statement, s) ← readStatement? (c :: s)
        let more ← readStatements? n (← lineEnd? s)
        some (statement :: more)

/-- The statements of a document.  A byte order mark in front of it is no part of it. -/
def statements? (s : List Char) : Option (List Statement) :=
  let s := match s with
    | '\uFEFF' :: s => s
    | s => s
  readStatements? (s.length + 1) s

/-! ## Building -/

/-- A document under construction. -/
structure Builder where
  /-- The tables that are closed. -/
  root : Entries := []
  /-- Where the open table belongs; the empty path is the root. -/
  path : List String := []
  /-- Whether the open table is one more table of an array. -/
  isItem : Bool := false
  /-- The entries of the open table. -/
  table : Entries := []
  deriving Inhabited

namespace Builder

/-- One more table at the end of an array. -/
def pushItem (key : String) (t : Entries) (es : Entries) : Option Entries :=
  match es.lookup key with
  | none => some (es.put key (.tables [t]))
  | some (.tables ts) => some (es.put key (.tables (t :: ts)))
  | some _ => none

/-- Puts the open table where it belongs. -/
def close (b : Builder) : Option Entries :=
  match b.path.getLast? with
  | none => some b.table
  | some key =>
    reach .header
      (fun _ es =>
        if b.isItem then pushItem key b.table es else some (es.put key (.table .own b.table)))
      b.path.dropLast .own b.root

/-- What stands at a path whose tables may all be entered. -/
def at? (r : Entries) : List String → Option Node
  | [] => none
  | [k] => r.lookup k
  | k :: path =>
    match r.lookup k with
    | some (.table _ sub) => at? sub path
    | some (.tables (sub :: _)) => at? sub path
    | _ => none

/-- Opens a table by its header.  A table that was only implied until now keeps its entries;
no table may have two headers, nor one that dotted keys have made. -/
def openTable (b : Builder) (path : List String) : Option Builder := do
  let root ← b.close
  match path.getLast? with
  | none => none
  | some key =>
    let found : Option Node := at? root path
    let root ← reach .header (fun _ es => some (es.drop key)) path.dropLast .own root
    match found with
    | none => some { root, path, isItem := false, table := [] }
    | some (.table .implied es) => some { root, path, isItem := false, table := es }
    | some _ => none

/-- Opens one more table of an array by its header. -/
def openItem (b : Builder) (path : List String) : Option Builder := do
  let root ← b.close
  match path.getLast? with
  | none => none
  | some key =>
    let root ← reach .header
      (fun _ es =>
        match es.lookup key with
        | none => some (es.put key (.tables []))
        | some (.tables _) => some es
        | some _ => none)
      path.dropLast .own root
    some { root, path, isItem := true, table := [] }

/-- Takes in one statement. -/
def add (b : Builder) : Statement → Option Builder
  | .header path => b.openTable path
  | .itemHeader path => b.openItem path
  | .pair path v => (addPair b.table (path, v)).map fun table => { b with table }

end Builder

/-- The table that a list of statements describes. -/
def build? (statements : List Statement) : Option Table := do
  let b ← statements.foldlM Builder.add {}
  let root ← b.close
  some (entriesValue root)

/-- The table that a document describes. -/
def parse? (s : List Char) : Option Table := do build? (← statements? s)

end LintHooks.Toml
