import LintHooks.Toml.Value
set_option autoImplicit false

/-!
# TOML: trees under construction

A document fills its tables bit by bit, and which additions are allowed depends
on how a table came into being.  A tree remembers that: a table of its own header,
one implied by the header of a table inside it, or one made by a dotted key.  An
array of tables grows by one table at a time, and only its last table is open.
-/

namespace LintHooks.Toml

/-- How a table came into being. -/
inductive Origin where
  /-- By its own header, as an inline table, or as the root. -/
  | own
  /-- By the header of a table inside it. -/
  | implied
  /-- By a dotted key. -/
  | dotted
  deriving DecidableEq, Repr, Inhabited

/-- What stands at a key of a tree. -/
inductive Node where
  | leaf (v : Value)
  | table (origin : Origin) (entries : List (String × Node))
  /-- An array of tables, the last one first. -/
  | tables (entries : List (List (String × Node)))
  deriving Repr, Inhabited

/-- The entries of a table under construction. -/
abbrev Entries : Type := List (String × Node)

namespace Entries

/-- The entries with one key set; a new key stands at the end. -/
def put (es : Entries) (key : String) (n : Node) : Entries :=
  match es with
  | [] => [(key, n)]
  | (k, m) :: es => if k = key then (key, n) :: es else (k, m) :: put es key n

/-- The entries without a key. -/
def drop (es : Entries) (key : String) : Entries := es.filter fun e => e.1 ≠ key

end Entries

/-- What ways a path may go: a dotted key makes dotted tables and may not enter a table that has
its own header; a header makes implied tables and may enter any. -/
inductive Route where
  | key | header
  deriving DecidableEq, Repr

/-- How the tables come into being that a path makes on its way. -/
def Route.makes : Route → Origin
  | .key => .dotted
  | .header => .implied

/-- Whether a path may enter a table. -/
def Route.mayEnter (r : Route) (origin : Origin) : Bool := r == .header || origin != .own

/-- Changes the table that a path leads to from a table; missing tables on the way are made.
`none` means that the document may not say this. -/
def reach (r : Route) (change : Origin → Entries → Option Entries) :
    List String → Origin → Entries → Option Entries
  | [], origin, es => change origin es
  | k :: path, _, es =>
    match es.lookup k with
    | none => (reach r change path r.makes []).map fun sub => es.put k (.table r.makes sub)
    | some (.leaf _) => none
    | some (.table origin sub) =>
      if r.mayEnter origin then
        (reach r change path origin sub).map fun sub => es.put k (.table origin sub)
      else none
    | some (.tables []) => none
    | some (.tables (open_ :: closed)) =>
      (reach r change path .own open_).map fun sub => es.put k (.tables (sub :: closed))

/-- Sets a key that is still free. -/
def setNew (key : String) (n : Node) (es : Entries) : Option Entries :=
  if (es.lookup key).isSome then none else some (es ++ [(key, n)])

/-- Sets the value of a key.  A dotted key may only add to tables that dotted keys have made. -/
def setValue (path : List String) (key : String) (v : Value) (es : Entries) : Option Entries :=
  reach .key
    (fun origin es =>
      if (origin == .dotted) == path.isEmpty then none else setNew key (.leaf v) es)
    path .own es

/-! ## Finished trees -/

mutual

/-- The value that a finished tree denotes. -/
def Node.value : Node → Value
  | .leaf v => v
  | .table _ entries => .table (entriesValue entries)
  | .tables entries => .array (tablesValue entries).reverse

def entriesValue : List (String × Node) → Table
  | [] => []
  | (k, n) :: es => (k, n.value) :: entriesValue es

def tablesValue : List (List (String × Node)) → List Value
  | [] => []
  | t :: ts => .table (entriesValue t) :: tablesValue ts

end

end LintHooks.Toml
