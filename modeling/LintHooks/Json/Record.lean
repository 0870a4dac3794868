import LintHooks.Json.Value
set_option autoImplicit false

/-!
# JSON: records

A record is written as an object, whose keys come in any order and of which
unknown ones are skipped, or as a list of its fields in their own order, of which
the last may be left out.  No key of a record may be given twice.
-/

namespace LintHooks.Json

/-- A field of a record: its key, and how its value changes the record read so far. -/
structure Field (ρ : Type) where
  key : String
  read : ρ → Reader ρ
  /-- Whether the record is none without it. -/
  required : Bool := false

/-- How a record is written. -/
structure Shape (ρ : Type) where
  /-- What messages call it. -/
  title : String
  /-- The record of which no field has been read. -/
  blank : ρ
  fields : List (Field ρ)

variable {ρ : Type}

namespace Shape

/-- The field with a key. -/
def field? (shape : Shape ρ) (key : String) : Option (Field ρ) :=
  shape.fields.find? fun f => f.key == key

/-- The first required field that is not among the given keys. -/
def missing? (shape : Shape ρ) (seen : List String) : Option String :=
  (shape.fields.find? fun f => f.required && !seen.contains f.key).map Field.key

/-- The fields of an object, with a bound on their number.  `seen` are the keys so far. -/
def readFields (shape : Shape ρ) : Nat → Bool → List String → ρ → Reader ρ
  | 0, _, _, _, s => faultAhead .endInObject s
  | n + 1, first, seen, r, s => do
    match ← nextKey first s with
    | none =>
      match shape.missing? seen with
      | some key => faultAt (.missingField key) (afterObject s)
      | none => .ok (r, afterObject s)
    | some s =>
      let (key, s) ← readText s
      let key := String.ofList key
      match shape.field? key with
      | none =>
        let s ← skipAny (← readColon s)
        readFields shape n false seen r s
      | some f =>
        if seen.contains key then faultAt (.repeatedField key) (afterObject s)
        else
          let (r, s) ← f.read r (← readColon s)
          readFields shape n false (key :: seen) r s

/-- The items of a list that stands for a record.  `index` counts them. -/
def readPlaces (shape : Shape ρ) : List (Field ρ) → Nat → ρ → Reader ρ
  | [], _, r, s => .ok (r, s)
  | f :: fs, index, r, s => do
    match ← nextItem (index = 0) s with
    | some s =>
      let (r, s) ← f.read r s
      readPlaces shape fs (index + 1) r s
    | none =>
      match (f :: fs).findIdx? Field.required with
      | none => .ok (r, s)
      | some k =>
        let wanted := shape.title ++ " with " ++ toString shape.fields.length ++ " elements"
        faultAt (.tooShort (index + k) wanted) (afterList s)

/-- A record. -/
def read (shape : Shape ρ) : Reader ρ := fun s =>
  match skipSpace s with
  | [] => faultAhead .endInValue []
  | '[' :: s => do
    let (r, s) ← readPlaces shape shape.fields 0 shape.blank s
    .ok (r, ← closeList s)
  | '{' :: s => readFields shape (s.length + 1) true [] shape.blank s
  | s => .error (wrongValue shape.title s)

end Shape

end LintHooks.Json
