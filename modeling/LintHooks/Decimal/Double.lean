set_option autoImplicit false

/-!
# Decimal: double-precision numbers

A double-precision number as an integer times a power of two, and the number
nearest to a ratio of integers or to a decimal literal, a half going to the even
neighbour.
-/

namespace LintHooks

/-- A double-precision number; a finite one has the magnitude `m · 2^q`. -/
inductive Double where
  | nan
  | infinite (negative : Bool)
  | finite (negative : Bool) (m : Nat) (q : Int)
  deriving DecidableEq, Repr, Inhabited

namespace Double

/-- How many binary digits a magnitude has. -/
def precision : Nat := 53

/-- The least exponent. -/
def minExponent : Int := -1074

/-- The greatest exponent. -/
def maxExponent : Int := 971

/-- The quotient rounded to the nearest integer, a half to the even one. -/
def roundQuotient (num den : Nat) : Nat :=
  let q := num / den
  let twice := 2 * (num % den)
  if twice < den then q else if den < twice then q + 1 else q + q % 2

/-- The ratio divided by `2^q`, as a ratio. -/
def scaleDown (num den : Nat) (q : Int) : Nat × Nat :=
  if 0 ≤ q then (num, den * Nat.pow 2 q.toNat) else (num * Nat.pow 2 (-q).toNat, den)

/-- The exponent of the leading binary digit of a positive ratio. -/
def leadingExponent (num den : Nat) : Int :=
  let e : Int := (num.log2 : Int) - (den.log2 : Int)
  let (n, d) := scaleDown num den e
  if d ≤ n then e else e - 1

/-- The number nearest to a ratio with a positive denominator. -/
def ofRatio (negative : Bool) (num den : Nat) : Double :=
  if num = 0 then .finite negative 0 minExponent
  else
    let q := max minExponent (leadingExponent num den - (precision - 1 : Nat))
    let (n, d) := scaleDown num den q
    let m := roundQuotient n d
    let (m, q) := if m = Nat.pow 2 precision then (Nat.pow 2 (precision - 1), q + 1) else (m, q)
    if maxExponent < q then .infinite negative else .finite negative m q

/-- The number nearest to `digits · 10^exponent`.  Exponents far outside the range of the
numbers are settled without computing the power. -/
def ofDecimal (negative : Bool) (digits : Nat) (exponent : Int) : Double :=
  let length : Int := digits.log2 / 3 + 1
  if digits = 0 ∨ exponent + length < -400 then ofRatio negative 0 1
  else if 400 < exponent + length / 2 then .infinite negative
  else if 0 ≤ exponent then ofRatio negative (digits * Nat.pow 10 exponent.toNat) 1
  else ofRatio negative digits (Nat.pow 10 (-exponent).toNat)

/-- Whether a number is positive infinity. -/
def isPositiveInfinity : Double → Bool
  | .infinite false => true
  | _ => false

end Double

end LintHooks
