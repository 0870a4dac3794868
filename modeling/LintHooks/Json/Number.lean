import LintHooks.Decimal.Shortest
import LintHooks.Json.Fault
set_option autoImplicit false

/-!
# JSON: numbers

A number is an integer of 64 bits if it is written as one and fits; else it is a
double-precision number, made from at most nineteen or twenty digits by one
rounded multiplication or division.  Where the value does not matter a number is
skipped, and then it may be of any size.
-/

namespace LintHooks.Json

/-- A number as it was read. -/
inductive Number where
  | integer (n : Int)
  | double (x : Double)
  deriving DecidableEq, Repr, Inhabited

/-- How messages show a number that was found. -/
def Number.describe : Number → String
  | .integer n => "integer `" ++ toString n ++ "`"
  | .double x => "floating point `" ++ x.compactText ++ "`"

/-! ## Values -/

/-- The greatest number of 64 bits. -/
def maxWord : Nat := 0xFFFFFFFFFFFFFFFF

/-- The digits of a number before its exponent. -/
structure Significand where
  value : Nat := 0
  /-- The power of ten of the last digit taken in. -/
  exponent : Int := 0
  /-- Whether further digits no longer count. -/
  full : Bool := false
  deriving DecidableEq, Repr, Inhabited

/-- Takes in a digit before the point. -/
def Significand.addWhole (s : Significand) (c : Char) : Significand :=
  let value := s.value * 10 + (c.toNat - '0'.toNat)
  if s.full || maxWord < value then { s with exponent := s.exponent + 1, full := true }
  else { s with value }

/-- Takes in a digit after the point. -/
def Significand.addFraction (s : Significand) (c : Char) : Significand :=
  let value := s.value * 10 + (c.toNat - '0'.toNat)
  if s.full || maxWord < value then { s with full := true }
  else { s with value, exponent := s.exponent - 1 }

/-- A number without its sign, scaled by a power of ten within the range of the type.  `none`
means that it is too large. -/
def scaled (x : Double) (exponent : Int) : Option Double :=
  match x, Double.ofDecimal false 1 exponent.natAbs with
  | .finite _ m q, .finite _ n r =>
    let shift := q - r
    let product := if 0 ≤ exponent then q + r else shift
    let (num, den) := if 0 ≤ exponent then (m * n, 1) else (m, n)
    let y :=
      if 0 ≤ product then Double.ofRatio false (num * Nat.pow 2 product.toNat) den
      else Double.ofRatio false num (den * Nat.pow 2 (-product).toNat)
    match y with
    | .finite _ _ _ => some y
    | _ => none
  | _, _ => none

/-- Whether a number is zero. -/
def isZero : Double → Bool
  | .finite _ 0 _ => true
  | _ => false

/-- The powers of ten that divide in one step. -/
def maxPower : Nat := 308

/-- A number without its sign, scaled by any power of ten; a very small one is divided in at most
`steps` steps. -/
def scaledBy (steps : Nat) (x : Double) (exponent : Int) : Option Double :=
  if exponent.natAbs ≤ maxPower then scaled x exponent
  else if isZero x then some x
  else if 0 ≤ exponent then none
  else match steps with
    | 0 => some (.finite false 0 Double.minExponent)
    | n + 1 => (scaled x (-maxPower)).bind fun x => scaledBy n x (exponent + maxPower)

/-- A number with its sign. -/
def signed (negative : Bool) : Double → Double
  | .finite _ m q => .finite negative m q
  | x => x

/-- The double of a significand and an exponent. -/
def double? (negative : Bool) (s : Significand) (exponent : Int) : Option Number :=
  (scaledBy 4 (Double.ofRatio false s.value 1) (s.exponent + exponent)).map fun x =>
    .double (signed negative x)

/-! ## Reading -/

/-- The greatest exponent that is taken for what it says. -/
def maxExponent : Nat := 0x7FFFFFFF

/-- An exponent after its letter. -/
def readExponent (negative : Bool) (m : Significand) (s : List Char) :
    Except Fault (Number × List Char) :=
  let (down, s) := match s with
    | '+' :: s => (false, s)
    | '-' :: s => (true, s)
    | s => (false, s)
  match s with
  | [] => faultAt .endInValue []
  | c :: more =>
    if !c.isDigit then faultAhead .badNumber s
    else
      let digits := s.takeWhile Char.isDigit
      let rest := s.dropWhile Char.isDigit
      let value := digits.foldl (fun n c => n * 10 + (c.toNat - '0'.toNat)) 0
      if maxExponent < value then
        if m.value ≠ 0 && !down then
          -- the digit that makes the exponent too large is the last one read
          let read := (List.range (more.length + 2)).find? fun k =>
            maxExponent < (digits.take k).foldl (fun n c => n * 10 + (c.toNat - '0'.toNat)) 0
          faultAt .numberTooLarge (s.drop (read.getD 0))
        else .ok (.double (.finite negative 0 Double.minExponent), rest)
      else
        match double? negative m (if down then -value else value) with
        | some n => .ok (n, rest)
        | none => faultAt .numberTooLarge rest

/-- What follows the digits of a number that is no integer. -/
def readTail (negative : Bool) (m : Significand) (s : List Char) :
    Except Fault (Number × List Char) :=
  match s with
  | 'e' :: s => readExponent negative m s
  | 'E' :: s => readExponent negative m s
  | s =>
    match double? negative m 0 with
    | some n => .ok (n, s)
    | none => faultAt .numberTooLarge s

/-- What follows the digits before the point.  The digits after it count as long as they fit, even
where one before the point did not. -/
def readFraction (negative : Bool) (m : Significand) (s : List Char) :
    Except Fault (Number × List Char) :=
  match s with
  | '.' :: s =>
    let digits := s.takeWhile Char.isDigit
    if digits = [] then
      if s = [] then faultAhead .endInValue s else faultAhead .badNumber s
    else
      readTail negative (digits.foldl Significand.addFraction { m with full := false })
        (s.dropWhile Char.isDigit)
  | s => readTail negative m s

/-- Whether a text goes on like a number that is no integer. -/
def goesOnAsDouble : List Char → Bool
  | c :: _ => c = '.' || c = 'e' || c = 'E'
  | [] => false

/-- A number that is written as an integer. -/
def integerOf (negative : Bool) (n : Nat) : Number :=
  if !negative then .integer n
  else if 0 < n ∧ n ≤ 0x8000000000000000 then .integer (-n)
  else .double (signed true (Double.ofRatio false n 1))

/-- A number after its sign. -/
def readNumber (negative : Bool) (s : List Char) : Except Fault (Number × List Char) :=
  match s with
  | [] => faultAt .endInValue []
  | c :: more =>
    if !c.isDigit then faultAhead .badNumber s
    else if c = '0' && more.head?.any Char.isDigit then faultAhead .badNumber more
    else
      let digits := if c = '0' then ['0'] else s.takeWhile Char.isDigit
      let rest := s.drop digits.length
      let m := digits.foldl Significand.addWhole {}
      if goesOnAsDouble rest || m.full then readFraction negative m rest
      else .ok (integerOf negative m.value, rest)

/-! ## Skipping -/

/-- The rest after an exponent whose value does not matter, after its letter. -/
def skipExponent (s : List Char) : Except Fault (List Char) :=
  let s := match s with
    | '+' :: s => s
    | '-' :: s => s
    | s => s
  if s.head?.any Char.isDigit then .ok (s.dropWhile Char.isDigit) else faultAhead .badNumber s

/-- The rest after an exponent, if there is one. -/
def skipTail (s : List Char) : Except Fault (List Char) :=
  match s with
  | 'e' :: s => skipExponent s
  | 'E' :: s => skipExponent s
  | s => .ok s

/-- The rest after a number whose value does not matter, after its sign. -/
def skipNumber (s : List Char) : Except Fault (List Char) :=
  match s with
  | [] => faultAt .badNumber []
  | c :: more =>
    if !c.isDigit then faultAhead .badNumber s
    else if c = '0' && more.head?.any Char.isDigit then faultAhead .badNumber more
    else
      let s := if c = '0' then more else s.dropWhile Char.isDigit
      match s with
      | '.' :: s =>
        if s.head?.any Char.isDigit then skipTail (s.dropWhile Char.isDigit)
        else faultAhead .badNumber s
      | s => skipTail s

end LintHooks.Json
