set_option autoImplicit false

/-!
# Text: similarity

How alike two words are, as the Jaro measure: the mean of the shares of either
word that is matched and of the matches that are in order.  The measure is kept
as an exact fraction, so that comparing two of them involves no rounding.
-/

namespace LintHooks.Text

/-- A quotient of two counts. -/
structure Share where
  num : Nat
  den : Nat
  deriving Repr

/-- Whether one quotient is greater than another. -/
def Share.gt (a b : Share) : Bool := b.num * a.den < a.num * b.den

/-- The position of the first free place from `low` up to `high` that holds `c`. -/
def firstFree (b : Array Char) (taken : List Nat) (c : Char) (low high : Nat) : Option Nat :=
  (List.range high).find? fun j => low ≤ j && b[j]? == some c && !taken.contains j

/-- The places of `b` that the characters of `a` are matched with, each with its character, in
the order of `a`.  A character is matched with one no further away than half the longer
word. -/
def matchedPlaces (a b : List Char) : List (Char × Nat) :=
  let reach := max a.length b.length / 2 - 1
  let target := b.toArray
  (a.zipIdx.foldl (fun found (c, i) =>
    match firstFree target (found.map (·.2)) c (i - reach) (min b.length (i + reach + 1)) with
    | some j => (c, j) :: found
    | none => found) []).reverse

/-- The similarity of two words. -/
def similarity (a b : List Char) : Share :=
  let found := matchedPlaces a b
  let m := found.length
  if a = [] ∧ b = [] then ⟨1, 1⟩
  else if m = 0 then ⟨0, 1⟩
  else
    let places := (found.map (·.2)).mergeSort
    let ordered := places.filterMap fun j => b[j]?
    let moved := ((found.map (·.1)).zip ordered).countP fun (x, y) => x != y
    let inOrder := m - moved / 2
    ⟨m * b.length * m + m * a.length * m + inOrder * a.length * b.length,
      3 * a.length * b.length * m⟩

/-- The word most like `w`, if one is more alike than seven tenths; of equals the last. -/
def mostSimilar (w : String) (candidates : List String) : Option String :=
  let scored := candidates.map fun c => (similarity w.toList c.toList, c)
  let close := scored.filter fun (s, _) => s.gt ⟨7, 10⟩
  (close.foldl (fun best (s, c) =>
    match best with
    | some (t, d) => if Share.gt t s then some (t, d) else some (s, c)
    | none => some (s, c)) (none : Option (Share × String))).map (·.2)

end LintHooks.Text
