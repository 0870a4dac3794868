import LintHooks.Text.Basic
import Mathlib.Data.List.Infix
import Mathlib.Data.List.TakeWhile
set_option autoImplicit false

/-!
# Text: searching, cutting and trimming

Looking for one text in another decides whether it is an infix, and a text is cut at the first
occurrence of a character.  Trimming takes the characters of a class away from the end of a text.

The results on searching are `occurs_iff` and, for `cut?`, the equations `cut?_append` and
`cut?_eq_none`.  `infix_append_cons` is how a search in a text that has been put together becomes a
search in its parts, if a character between the parts is not in what is looked for.

The main result on trimming is `trimEnd_eq_iff`, which says of a text what it is trimmed to without
saying how that is done: what has been taken away is of the class, and what is left does not end
with a character of it.  `trimEnd_append` has the text that has been trimmed off, and
`trimEnd_append_of_getLast` how a text is trimmed whose parts are known.
-/

namespace LintHooks.Text

/-! ## Searching and cutting -/

theorem isSome_after?_iff {p s : List Char} : (after? p s).isSome = true ↔ p <+: s := by
  rw [Option.isSome_iff_exists]
  exact exists_congr fun r => by rw [after?_eq_some_iff, eq_comm]

theorem occurs_iff {needle s : List Char} : occurs needle s = true ↔ needle <:+: s := by
  induction s with
  | nil => rw [occurs, List.isEmpty_iff, List.infix_nil]
  | cons c s ih => rw [occurs, Bool.or_eq_true, isSome_after?_iff, ih, List.infix_cons_iff]

theorem occurs_mono {needle s t : List Char} (h : s <:+: t) (hs : occurs needle s = true) :
    occurs needle t = true :=
  occurs_iff.2 ((occurs_iff.1 hs).trans h)

/-- A character that does not occur in a text keeps the two sides of it apart. -/
theorem infix_append_cons {needle before after : List Char} {c : Char} (hc : c ∉ needle)
    (h : needle <:+: before ++ c :: after) : needle <:+: before ∨ needle <:+: after := by
  induction before with
  | nil =>
    rcases List.infix_cons_iff.1 h with hprefix | hinfix
    · cases needle with
      | nil => exact .inl List.nil_infix
      | cons d needle =>
        rw [(List.cons_prefix_cons.1 hprefix).1] at hc
        exact absurd List.mem_cons_self hc
    · exact .inr hinfix
  | cons d before ih =>
    rcases List.infix_cons_iff.1 h with hprefix | hinfix
    · have hstop : d :: before ++ [c] <+: d :: before ++ c :: after :=
        (List.prefix_append_right_inj _).2 (List.prefix_append [c] after)
      rcases List.prefix_or_prefix_of_prefix hprefix hstop with hin | hover
      · rcases List.prefix_concat_iff.1 hin with rfl | hin
        · exact absurd (List.mem_append_right _ List.mem_cons_self) hc
        · exact .inl hin.isInfix
      · exact absurd (hover.subset (List.mem_append_right _ List.mem_cons_self)) hc
    · exact (ih hinfix).imp_left fun hin => hin.trans (List.suffix_cons d before).isInfix

theorem cut?_append {sep : Char} {before : List Char} (h : sep ∉ before)
    (rest : List Char) : cut? sep (before ++ sep :: rest) = some (before, rest) := by
  induction before with
  | nil => rw [List.nil_append, cut?, if_pos rfl]
  | cons c before ih =>
    have hc : c ≠ sep := fun hc => h (hc ▸ List.mem_cons_self)
    rw [List.cons_append, cut?, if_neg hc, ih fun hm => h (List.mem_cons_of_mem c hm)]
    rfl

theorem cut?_eq_none {sep : Char} {s : List Char} (h : sep ∉ s) : cut? sep s = none := by
  induction s with
  | nil => rfl
  | cons c s ih =>
    have hc : c ≠ sep := fun hc => h (hc ▸ List.mem_cons_self)
    rw [cut?, if_neg hc, ih fun hm => h (List.mem_cons_of_mem c hm)]
    rfl

/-! ## Trimming -/

section Trimming

variable {p : Char → Bool} {s r : List Char}

theorem dropWhile_append_of_head {front rest : List Char} (hfront : ∀ c ∈ front, p c = true)
    (hrest : ∀ c, p c = true → rest.head? ≠ some c) : (front ++ rest).dropWhile p = rest := by
  rw [List.dropWhile_append_of_pos hfront]
  cases rest with
  | nil => rfl
  | cons c rest =>
    have hc : ¬ p c = true := fun hc => hrest c hc rfl
    rw [List.dropWhile_cons_of_neg hc]

theorem trimEnd_append_of_getLast {back rest : List Char} (hback : ∀ c ∈ back, p c = true)
    (hrest : ∀ c, p c = true → rest.getLast? ≠ some c) : trimEnd p (rest ++ back) = rest := by
  have hreverse : (back.reverse ++ rest.reverse).dropWhile p = rest.reverse := by
    refine dropWhile_append_of_head (by simpa using hback) fun c hc => ?_
    rw [List.head?_reverse]
    exact hrest c hc
  rw [trimEnd, List.reverse_append, hreverse, List.reverse_reverse]

/-- What is trimmed off the end stands behind the rest. -/
theorem trimEnd_append (p : Char → Bool) (s : List Char) :
    trimEnd p s ++ (s.reverse.takeWhile p).reverse = s := by
  rw [trimEnd, ← List.reverse_append, List.takeWhile_append_dropWhile, List.reverse_reverse]

theorem head?_dropWhile_ne {c : Char} (hc : p c = true) (s : List Char) :
    (s.dropWhile p).head? ≠ some c := by
  intro hhead
  have hnot := List.head?_dropWhile_not p s
  rw [hhead] at hnot
  exact Bool.false_ne_true (Eq.trans hnot.symm hc)

/-- Trimming takes characters of the class away from the end until another one is there. -/
theorem trimEnd_eq_iff : trimEnd p s = r ↔
    (∃ back, (∀ c ∈ back, p c = true) ∧ s = r ++ back) ∧
      ∀ c, p c = true → r.getLast? ≠ some c := by
  constructor
  · rintro rfl
    refine ⟨⟨(s.reverse.takeWhile p).reverse, fun c hc => ?_, (trimEnd_append p s).symm⟩,
      fun c hc => ?_⟩
    · exact List.mem_takeWhile_imp (List.mem_reverse.1 hc)
    · rw [trimEnd, List.getLast?_reverse]
      exact head?_dropWhile_ne hc _
  · rintro ⟨⟨back, hback, rfl⟩, hbare⟩
    exact trimEnd_append_of_getLast hback hbare

end Trimming

end LintHooks.Text
