import LintHooks.Json.Number
import LintHooks.Json.Text
import LintHooks.Text.Quoted
set_option autoImplicit false

/-!
# JSON: values of a known sort

A program that reads JSON knows what it wants: a text, a list, perhaps nothing.
A reader here takes a value of one sort and finds a fault in any other.  Values
that nobody wants are skipped; they have to be well formed and no more.
-/

namespace LintHooks.Json

/-- The rest of a word, after its first letter. -/
def readWord : List Char → List Char → Except Fault (List Char)
  | [], s => .ok s
  | _ :: _, [] => faultAt .endInValue []
  | w :: ws, c :: s => if w = c then readWord ws s else faultAhead .noWord (c :: s)

/-! ## Values of the wrong sort -/

/-- The fault of a value of the wrong sort.  A list or an object is not looked into; another
value has to be well formed, or else that is the fault. -/
def wrongValue (wanted : String) (s : List Char) : Fault :=
  let wrong (found : String) (rest : List Char) : Fault :=
    { reason := .wrongSort found wanted, rest }
  let word (letters : List Char) (found : String) (rest : List Char) : Fault :=
    match readWord letters rest with
    | .ok rest => wrong found rest
    | .error f => f
  let number (negative : Bool) (s : List Char) : Fault :=
    match readNumber negative s with
    | .ok (n, rest) => wrong n.describe rest
    | .error f => f
  match s with
  | 'n' :: rest => word ['u', 'l', 'l'] "null" rest
  | 't' :: rest => word ['r', 'u', 'e'] "boolean `true`" rest
  | 'f' :: rest => word ['a', 'l', 's', 'e'] "boolean `false`" rest
  | '-' :: rest => number true rest
  | '"' :: rest =>
    match readText rest with
    | .ok (t, rest) => wrong ("string " ++ Text.quote (String.ofList t)) rest
    | .error f => f
  | '[' :: _ => wrong "sequence" s
  | '{' :: _ => wrong "map" s
  | c :: _ => if c.isDigit then number false s else { reason := .noValue, rest := s, read := 1 }
  | [] => { reason := .noValue, rest := [], read := 1 }

/-! ## Lists -/

/-- Where the next item of a list begins; `none` at the end of the list, which is not taken. -/
def nextItem (first : Bool) (s : List Char) : Except Fault (Option (List Char)) :=
  match skipSpace s with
  | [] => faultAhead .endInList []
  | c :: rest =>
    if c = ']' then .ok none
    else if first then .ok (some (c :: rest))
    else if c = ',' then
      match skipSpace rest with
      | [] => faultAhead .endInValue []
      | d :: rest => if d = ']' then faultAhead .trailingComma (d :: rest) else .ok (some (d :: rest))
    else faultAhead .noListEnd (c :: rest)

/-- The rest after the end of a list. -/
def closeList (s : List Char) : Except Fault (List Char) :=
  match skipSpace s with
  | [] => faultAhead .endInList []
  | c :: rest =>
    if c = ']' then .ok rest
    else if c = ',' then
      let rest := skipSpace rest
      faultAhead (if rest.head? = some ']' then .trailingComma else .trailingCharacters) rest
    else faultAhead .trailingCharacters (c :: rest)

/-- How far an attempt to close a list gets. -/
def afterList (s : List Char) : List Char :=
  match skipSpace s with
  | ']' :: rest => rest
  | ',' :: rest => skipSpace rest
  | rest => rest

/-- The items of a list, with a bound on their number. -/
def readItems {α : Type} (item : Reader α) : Nat → Bool → Reader (List α)
  | 0, _, s => faultAhead .endInList s
  | n + 1, first, s => do
    match ← nextItem first s with
    | none => .ok ([], s)
    | some s =>
      let (x, s) ← item s
      let (xs, s) ← readItems item n false s
      .ok (x :: xs, s)

/-- A list. -/
def readList {α : Type} (item : Reader α) : Reader (List α) := fun s =>
  match skipSpace s with
  | [] => faultAhead .endInValue []
  | '[' :: s => do
    let (xs, s) ← readItems item (s.length + 1) true s
    .ok (xs, ← closeList s)
  | s => .error (wrongValue "a sequence" s)

/-! ## Texts -/

/-- A text that is called `wanted` where something else stands. -/
def readTextAs (wanted : String) : Reader String := fun s =>
  match skipSpace s with
  | [] => faultAhead .endInValue []
  | '"' :: s => (readText s).map fun (t, s) => (String.ofList t, s)
  | s => .error (wrongValue wanted s)

/-- A value that may be null. -/
def readNullable {α : Type} (value : Reader α) : Reader (Option α) := fun s =>
  match skipSpace s with
  | 'n' :: s => (readWord ['u', 'l', 'l'] s).map fun s => (none, s)
  | s => (value s).map fun (x, s) => (some x, s)

/-! ## Objects -/

/-- Where the key of the next field of an object begins, after its opening quote; `none` at the
end of the object, which is not taken. -/
def nextKey (first : Bool) (s : List Char) : Except Fault (Option (List Char)) :=
  match skipSpace s with
  | [] => faultAhead .endInObject []
  | c :: rest =>
    if c = '}' then .ok none
    else if first then
      if c = '"' then .ok (some rest) else faultAhead .keyNoText (c :: rest)
    else if c = ',' then
      match skipSpace rest with
      | [] => faultAhead .endInValue []
      | d :: more =>
        if d = '"' then .ok (some more)
        else if d = '}' then faultAhead .trailingComma (d :: more)
        else faultAhead .keyNoText (d :: more)
    else faultAhead .noObjectEnd (c :: rest)

/-- The rest after the colon of a field. -/
def readColon (s : List Char) : Except Fault (List Char) :=
  match skipSpace s with
  | [] => faultAhead .endInObject []
  | c :: rest => if c = ':' then .ok rest else faultAhead .noColon (c :: rest)

/-- How far an attempt to close an object gets. -/
def afterObject (s : List Char) : List Char :=
  match skipSpace s with
  | '}' :: rest => rest
  | rest => rest

/-! ## Values that nobody wants -/

mutual

/-- The rest after any value, with a bound on the parts it may have. -/
def skipValue : Nat → List Char → Except Fault (List Char)
  | 0, s => faultAhead .endInValue s
  | n + 1, s =>
    match skipSpace s with
    | [] => faultAhead .endInValue []
    | c :: rest =>
      if c = 'n' then readWord ['u', 'l', 'l'] rest
      else if c = 't' then readWord ['r', 'u', 'e'] rest
      else if c = 'f' then readWord ['a', 'l', 's', 'e'] rest
      else if c = '-' then skipNumber rest
      else if c.isDigit then skipNumber (c :: rest)
      else if c = '"' then skipText rest
      else if c = '[' then
        match skipSpace rest with
        | [] => faultAhead .endInList []
        | ']' :: rest => .ok rest
        | rest => skipItems n rest
      else if c = '{' then
        match skipSpace rest with
        | [] => faultAhead .endInObject []
        | '}' :: rest => .ok rest
        | rest => skipFields n rest
      else faultAhead .noValue (c :: rest)

/-- The rest after the items of a list that has some. -/
def skipItems : Nat → List Char → Except Fault (List Char)
  | 0, s => faultAhead .endInList s
  | n + 1, s =>
    match skipValue n s with
    | .error f => .error f
    | .ok s =>
      match skipSpace s with
      | [] => faultAhead .endInList []
      | ',' :: s => skipItems n s
      | ']' :: s => .ok s
      | s => faultAhead .noListEnd s

/-- The rest after the fields of an object that has some. -/
def skipFields : Nat → List Char → Except Fault (List Char)
  | 0, s => faultAhead .endInObject s
  | n + 1, s =>
    match skipSpace s with
    | [] => faultAhead .endInObject []
    | c :: rest =>
      if c ≠ '"' then faultAhead .keyNoText (c :: rest)
      else
        match skipText rest with
        | .error f => .error f
        | .ok s =>
          match readColon s with
          | .error f => .error f
          | .ok s =>
            match skipValue n s with
            | .error f => .error f
            | .ok s =>
              match skipSpace s with
              | [] => faultAhead .endInObject []
              | ',' :: s => skipFields n s
              | '}' :: s => .ok s
              | s => faultAhead .noObjectEnd s

end

/-- The rest after any value.  Every part of a value takes a character, and between a part and
the next there is at most one step more. -/
def skipAny (s : List Char) : Except Fault (List Char) := skipValue (2 * s.length + 1) s

/-! ## Whole texts -/

/-- A value that is all there is in a text. -/
def readWhole {α : Type} (value : Reader α) (s : List Char) : Except Fault α := do
  let (x, rest) ← value s
  match skipSpace rest with
  | [] => .ok x
  | rest => faultAhead .trailingCharacters rest

end LintHooks.Json
