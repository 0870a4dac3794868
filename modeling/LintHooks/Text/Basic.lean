set_option autoImplicit false

/-!
# Text: cutting and searching character lists

The rules of this library that look inside a text work on its list of
characters.  This module holds the few cuts they share: a literal beginning, a
literal anywhere, the first occurrence of a separator, and trimming by a
character class.
-/

namespace LintHooks.Text

/-- What follows the literal beginning `p` in `s`, if `s` begins with it. -/
def after? : List Char → List Char → Option (List Char)
  | [], s => some s
  | _ :: _, [] => none
  | p :: ps, c :: s => if p = c then after? ps s else none

theorem after?_eq_some_iff {p s r : List Char} : after? p s = some r ↔ s = p ++ r := by
  induction p generalizing s with
  | nil => simp [after?, eq_comm]
  | cons a p ih =>
    cases s with
    | nil => simp [after?]
    | cons c s => by_cases h : a = c <;> simp [after?, h, ih, eq_comm]

/-- Whether the literal `needle` occurs somewhere in the text. -/
def occurs (needle : List Char) : List Char → Bool
  | [] => needle.isEmpty
  | c :: s => (after? needle (c :: s)).isSome || occurs needle s

/-- Whether the text ends with the literal `e`. -/
def endsWith (e s : List Char) : Bool := (after? e.reverse s.reverse).isSome

/-- The parts before and after the first `sep`, if there is one. -/
def cut? (sep : Char) : List Char → Option (List Char × List Char)
  | [] => none
  | c :: s =>
    if c = sep then some ([], s) else (cut? sep s).map fun (before, rest) => (c :: before, rest)

theorem cut?_eq_some {sep : Char} {s before rest : List Char}
    (h : cut? sep s = some (before, rest)) : s = before ++ sep :: rest ∧ sep ∉ before := by
  induction s generalizing before with
  | nil => simp [cut?] at h
  | cons c s ih =>
    by_cases hc : c = sep
    · simp [cut?, hc] at h
      obtain ⟨rfl, rfl⟩ := h
      simp [hc]
    · simp only [cut?, hc, if_false, Option.map_eq_some_iff, Prod.exists] at h
      obtain ⟨b, r, hb, he⟩ := h
      obtain ⟨rfl, rfl⟩ := Prod.mk.inj he
      obtain ⟨rfl, hn⟩ := ih hb
      exact ⟨rfl, by simp [hn, Ne.symm hc]⟩

/-- The text without the characters of a class at its end. -/
def trimEnd (p : Char → Bool) (s : List Char) : List Char := (s.reverse.dropWhile p).reverse

/-- The text without the characters of a class at either end. -/
def trim (p : Char → Bool) (s : List Char) : List Char := trimEnd p (s.dropWhile p)

/-- The quote characters that may surround a value on a command line. -/
def isQuote (c : Char) : Bool := c == '"' || c == '\''

/-- A text without the quotes at either end. -/
def withoutQuotes (s : String) : String := String.ofList (trim isQuote s.toList)

/-- `n` copies of a text, one after the other. -/
def repeated (n : Nat) (s : String) : String := String.join (List.replicate n s)

end LintHooks.Text
