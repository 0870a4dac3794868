import LintHooks.Text.Basic
set_option autoImplicit false

/-!
# TOML: dates and times

A date, a time, or both with or without an offset from universal time.  Fractions
of a second are kept to the nanosecond; further digits are dropped.
-/

namespace LintHooks.Toml

structure Date where
  year : Nat
  month : Nat
  day : Nat
  deriving DecidableEq, Repr, Inhabited

structure Time where
  hour : Nat
  minute : Nat
  second : Nat
  nanosecond : Nat
  deriving DecidableEq, Repr, Inhabited

/-- The distance from universal time. -/
inductive Offset where
  | zulu
  | minutes (n : Int)
  deriving DecidableEq, Repr, Inhabited

/-- A point in time, as precise as it was written. -/
inductive DateTime where
  | date (d : Date)
  | time (t : Time)
  | full (d : Date) (t : Time) (offset : Option Offset)
  deriving DecidableEq, Repr, Inhabited

/-! ## Writing -/

/-- A number with zeros in front, at least `width` digits long. -/
def padded (width n : Nat) : String :=
  let s := toString n
  Text.repeated (width - s.length) "0" ++ s

def Date.text (d : Date) : String :=
  padded 4 d.year ++ "-" ++ padded 2 d.month ++ "-" ++ padded 2 d.day

def Time.text (t : Time) : String :=
  let fraction := Text.trimEnd (· == '0') (padded 9 t.nanosecond).toList
  padded 2 t.hour ++ ":" ++ padded 2 t.minute ++ ":" ++ padded 2 t.second
    ++ (if fraction = [] then "" else "." ++ String.ofList fraction)

def Offset.text : Offset → String
  | .zulu => "Z"
  | .minutes n =>
    (if n < 0 then "-" else "+") ++ padded 2 (n.natAbs / 60) ++ ":" ++ padded 2 (n.natAbs % 60)

/-- The text of a point in time. -/
def DateTime.text : DateTime → String
  | .date d => d.text
  | .time t => t.text
  | .full d t offset => d.text ++ "T" ++ t.text ++ (offset.map Offset.text).getD ""

/-! ## Reading -/

/-- Whether a year has a 29th of February. -/
def isLeapYear (year : Nat) : Bool := year % 4 = 0 && (year % 100 ≠ 0 || year % 400 = 0)

/-- How many days a month has. -/
def daysOf (year month : Nat) : Nat :=
  if month = 2 then if isLeapYear year then 29 else 28
  else if month = 4 ∨ month = 6 ∨ month = 9 ∨ month = 11 then 30
  else 31

/-- The value of a digit. -/
def digitValue (c : Char) : Nat := c.toNat - '0'.toNat

/-- The number that a list of decimal digits denotes. -/
def decimalValue (ds : List Char) : Nat := ds.foldl (fun n c => 10 * n + digitValue c) 0

/-- Exactly `n` digits, and the number they denote. -/
def fixedDigits (n : Nat) (s : List Char) : Option (Nat × List Char) :=
  let ds := s.take n
  if ds.length = n ∧ ds.all Char.isDigit then some (decimalValue ds, s.drop n) else none

/-- One literal character. -/
def expect (c : Char) : List Char → Option (List Char)
  | d :: s => if d = c then some s else none
  | [] => none

def Date.read? (s : List Char) : Option (Date × List Char) := do
  let (year, s) ← fixedDigits 4 s
  let (month, s) ← fixedDigits 2 (← expect '-' s)
  let (day, s) ← fixedDigits 2 (← expect '-' s)
  if 1 ≤ month ∧ month ≤ 12 ∧ 1 ≤ day ∧ day ≤ daysOf year month then
    some (⟨year, month, day⟩, s)
  else none

/-- A fraction of a second, if there is one; a point needs a digit after it. -/
def readFraction? (s : List Char) : Option (Nat × List Char) :=
  match s with
  | '.' :: s =>
    let ds := s.takeWhile Char.isDigit
    if ds = [] then none
    else some (decimalValue ((ds ++ List.replicate 9 '0').take 9), s.dropWhile Char.isDigit)
  | _ => some (0, s)

def Time.read? (s : List Char) : Option (Time × List Char) := do
  let (hour, s) ← fixedDigits 2 s
  let (minute, s) ← fixedDigits 2 (← expect ':' s)
  let (second, s) ← fixedDigits 2 (← expect ':' s)
  let (nanosecond, s) ← readFraction? s
  if hour ≤ 23 ∧ minute ≤ 59 ∧ second ≤ 60 then some (⟨hour, minute, second, nanosecond⟩, s)
  else none

/-- An offset, if there is one; a sign needs hours and minutes after it. -/
def readOffset? (s : List Char) : Option (Option Offset × List Char) :=
  match s with
  | 'Z' :: s => some (some .zulu, s)
  | 'z' :: s => some (some .zulu, s)
  | c :: s =>
    if c = '+' ∨ c = '-' then do
      let (hours, s) ← fixedDigits 2 s
      let (minutes, s) ← fixedDigits 2 (← expect ':' s)
      let total : Int := 60 * hours + minutes
      if hours ≤ 23 ∧ minutes ≤ 59 then
        some (some (.minutes (if c = '-' then -total else total)), s)
      else none
    else some (none, c :: s)
  | [] => some (none, [])

/-- A point in time at the beginning of a text.  A blank after a date may belong to what
follows, so it counts as a separator only before a time. -/
def DateTime.read? (s : List Char) : Option (DateTime × List Char) :=
  match Date.read? s with
  | none => (Time.read? s).map fun (t, rest) => (.time t, rest)
  | some (d, rest) =>
    match rest with
    | [] => some (.date d, [])
    | c :: more =>
      if c = 'T' ∨ c = 't' ∨ c = ' ' then
        match Time.read? more with
        | some (t, rest) => (readOffset? rest).map fun (offset, rest) => (.full d t offset, rest)
        | none => some (.date d, c :: more)
      else some (.date d, c :: more)

end LintHooks.Toml
