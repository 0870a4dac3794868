import LintHooks.Decimal.Double
import LintHooks.Text.Basic
set_option autoImplicit false

/-!
# Decimal: the shortest digits

The text of a number has the fewest digits that read back as the same number,
and of those the ones nearest to it.  Two notations put the digits down: one
without exponent, and one that uses an exponent for the very large and the very
small.
-/

namespace LintHooks

/-- Decimal digits and where the point stands: the value is `0.digits · 10^point`. -/
structure Digits where
  digits : List Char
  point : Int
  deriving DecidableEq, Repr, Inhabited

namespace Digits

/-- The magnitudes that read back as `m · 2^q`, in quarters of `2^q`: the least, the number
itself and the greatest. -/
def interval (m : Nat) (q : Int) : Nat × Nat × Nat :=
  let low :=
    if m = Nat.pow 2 (Double.precision - 1) ∧ Double.minExponent < q then 4 * m - 1 else 4 * m - 2
  (low, 4 * m, 4 * m + 2)

/-- `n · 2^q` as a ratio. -/
def binaryRatio (n : Nat) (q : Int) : Nat × Nat :=
  if 0 ≤ q then (n * Nat.pow 2 q.toNat, 1) else (n, Nat.pow 2 (-q).toNat)

/-- `n · 10^e` as a ratio. -/
def decimalRatio (n : Nat) (e : Int) : Nat × Nat :=
  if 0 ≤ e then (n * Nat.pow 10 e.toNat, 1) else (n, Nat.pow 10 (-e).toNat)

/-- Order of ratios. -/
def ratioLe (a b : Nat × Nat) : Bool := a.1 * b.2 ≤ b.1 * a.2

def ratioLt (a b : Nat × Nat) : Bool := a.1 * b.2 < b.1 * a.2

/-- The distance of two ratios. -/
def ratioDistance (a b : Nat × Nat) : Nat × Nat :=
  (if a.1 * b.2 ≤ b.1 * a.2 then b.1 * a.2 - a.1 * b.2 else a.1 * b.2 - b.1 * a.2, a.2 * b.2)

/-- The least `p` of `fuel` candidates from `p` on with `value < 10^p`. -/
def pointFrom (value : Nat × Nat) : Nat → Int → Int
  | 0, p => p
  | fuel + 1, p => if ratioLt value (decimalRatio 1 p) then p else pointFrom value fuel (p + 1)

/-- The multiples of a power of ten next to the number that read back as it, nearest first. -/
def onGrid (m : Nat) (q : Int) (step : Int) : Option Nat :=
  let (low, mid, high) := interval m q
  let value := binaryRatio mid (q - 2)
  let least := binaryRatio low (q - 2)
  let greatest := binaryRatio high (q - 2)
  let unit := decimalRatio 1 step
  let below := value.1 * unit.2 / (value.2 * unit.1)
  let fits (n : Nat) : Bool :=
    let x := decimalRatio n step
    if m % 2 = 0 then ratioLe least x && ratioLe x greatest
    else ratioLt least x && ratioLt x greatest
  match fits below && below ≠ 0, fits (below + 1) with
  | false, false => none
  | true, false => some below
  | false, true => some (below + 1)
  | true, true =>
    let down := ratioDistance (decimalRatio below step) value
    let up := ratioDistance (decimalRatio (below + 1) step) value
    if ratioLt down up then some below
    else if ratioLt up down then some (below + 1)
    else some (below + below % 2)

/-- The first of several counts of digits with which a positive number can be written. -/
def firstOnGrid (m : Nat) (q : Int) (point : Int) : List Nat → Digits
  | [] => ⟨[], point⟩
  | count :: more =>
    match onGrid m q (point - (count : Int)) with
    | some n =>
      let text := (toString n).toList
      -- rounding up can carry into one digit more
      ⟨Text.trimEnd (· == '0') text, point - (count : Int) + text.length⟩
    | none => firstOnGrid m q point more

/-- The shortest digits of the magnitude `m · 2^q`. -/
def shortest (m : Nat) (q : Int) : Digits :=
  if m = 0 then ⟨['0'], 1⟩
  else
    let estimate := ((m.log2 : Int) + q) * 30103 / 100000 - 1
    let point := pointFrom (binaryRatio m q) 8 estimate
    firstOnGrid m q point ((List.range 17).map (· + 1))

/-- Digits without an exponent; a whole number keeps no point. -/
def positional (d : Digits) : String :=
  let count : Int := d.digits.length
  if d.point ≤ 0 then
    "0." ++ Text.repeated (-d.point).toNat "0" ++ String.ofList d.digits
  else if count ≤ d.point then
    String.ofList d.digits ++ Text.repeated (d.point - count).toNat "0"
  else
    String.ofList (d.digits.take d.point.toNat) ++ "."
      ++ String.ofList (d.digits.drop d.point.toNat)

/-- Digits with an exponent. -/
def scientific (d : Digits) : String :=
  let fraction := match d.digits.drop 1 with
    | [] => ""
    | more => "." ++ String.ofList more
  String.ofList (d.digits.take 1) ++ fraction ++ "e" ++ toString (d.point - 1)

end Digits

namespace Double

def sign (negative : Bool) : String := if negative then "-" else ""

/-- Shows a whole number with a fraction of one zero. -/
def withPoint (s : String) : String := if s.toList.contains '.' then s else s ++ ".0"

/-- A number without an exponent, always with a point if it is finite. -/
def plainText : Double → String
  | .nan => "NaN"
  | .infinite negative => sign negative ++ "inf"
  | .finite negative m q => sign negative ++ withPoint (Digits.shortest m q).positional

/-- A number with an exponent unless it lies between `10^-5` and `10^16`. -/
def compactText : Double → String
  | .nan => "NaN"
  | .infinite negative => sign negative ++ "inf"
  | .finite negative m q =>
    let d := Digits.shortest m q
    sign negative ++
      (if m = 0 ∨ (-5 < d.point ∧ d.point ≤ 16) then withPoint d.positional else d.scientific)

end Double

end LintHooks
