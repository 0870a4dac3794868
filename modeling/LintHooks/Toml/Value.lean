import LintHooks.Decimal.Double
import LintHooks.Toml.DateTime
set_option autoImplicit false

/-!
# TOML: values

What a TOML document holds.  A table is a list of keys with their values, in the
order in which they were written.
-/

namespace LintHooks.Toml

/-- A value of a document. -/
inductive Value where
  | text (s : String)
  | integer (n : Int)
  | number (x : Double)
  | truth (b : Bool)
  | moment (t : DateTime)
  | array (items : List Value)
  | table (entries : List (String × Value))
  deriving Repr, Inhabited

/-- The keys of a table with their values. -/
abbrev Table : Type := List (String × Value)

namespace Value

/-- Whether a value is a table. -/
def isTable : Value → Bool
  | .table _ => true
  | _ => false

end Value

namespace Table

/-- The table that a path of keys leads to. -/
def descend? (t : Table) : List String → Option Table
  | [] => some t
  | key :: path =>
    match t.lookup key with
    | some (.table inner) => descend? inner path
    | _ => none

/-- The entries that hold no table. -/
def withoutTables (t : Table) : Table := t.filter fun (_, v) => !v.isTable

/-- The entries in the order of their keys. -/
def sorted (t : Table) : Table := t.mergeSort fun a b => a.1 ≤ b.1

end Table

end LintHooks.Toml
