import LintHooks.Text.Lines
set_option autoImplicit false

/-!
# Text: line by line

What is taken from a text line by line can be taken from what stands between its line feeds,
provided that nothing is taken from an empty line and that a carriage return at the end of one does
not matter.  With their line feeds the lines are the pieces of the text, and those that are left of
them are the pieces of what is left.

The results are `filterMap_lines`, for what is taken from single lines, and `InPieces.filter`, for
lines that are kept or dropped.  The first is by induction from one line feed to the next, with
`pieces_append` to take off a line and `dropEnding_append` to take off its ending.  The second knows
nothing of how a text is cut: a text has only one list of pieces (`InPieces.pieces_eq`), and what is
left of such a list is one again.
-/

namespace LintHooks.Text

theorem pieces_of_not_mem {s : List Char} (h : '\n' ∉ s) :
    pieces s = if s = [] then [] else [s] := by
  induction s with
  | nil => rfl
  | cons c s ih =>
    have hc : c ≠ '\n' := fun heq => h (heq ▸ List.mem_cons_self)
    rw [pieces, if_neg hc, ih fun hs => h (List.mem_cons_of_mem _ hs)]
    by_cases hs : s = []
    · simp [hs]
    · simp [hs]

theorem pieces_append {s : List Char} (h : '\n' ∉ s) (t : List Char) :
    pieces (s ++ '\n' :: t) = (s ++ ['\n']) :: pieces t := by
  induction s with
  | nil => rw [List.nil_append, pieces, if_pos rfl, List.nil_append]
  | cons c s ih =>
    have hc : c ≠ '\n' := fun heq => h (heq ▸ List.mem_cons_self)
    rw [List.cons_append, pieces, if_neg hc, ih fun hs => h (List.mem_cons_of_mem _ hs),
      List.cons_append]

theorem dropEnding_of_not_mem {s : List Char} (h : '\n' ∉ s) : dropEnding s = s := by
  rw [dropEnding.eq_def]
  split
  · next heq => exact absurd (List.mem_reverse.1 (heq ▸ List.mem_cons_self)) h
  · next heq => exact absurd (List.mem_reverse.1 (heq ▸ List.mem_cons_self)) h
  · rfl

/-- A line feed is dropped, and a carriage return before it. -/
theorem dropEnding_append (s : List Char) :
    dropEnding (s ++ ['\n']) = s ∨ s = dropEnding (s ++ ['\n']) ++ ['\r'] := by
  rcases List.eq_nil_or_concat s with rfl | ⟨s, c, rfl⟩
  · exact .inl rfl
  · rw [List.concat_eq_append, dropEnding.eq_def]
    by_cases hc : c = '\r'
    · simp [hc]
    · simp [hc]

variable {α : Type} {take : List Char → Option α}

/-- The induction goes from one line feed to the next. -/
theorem filterMap_lines (hempty : take [] = none)
    (hreturn : ∀ line, take (line ++ ['\r']) = take line) (s : List Char) :
    (lines s).filterMap take = (s.splitOn '\n').filterMap take := by
  by_cases hs : '\n' ∈ s
  · obtain ⟨line, t, hs, hline⟩ := List.eq_append_cons_of_mem hs
    have hfirst : take (dropEnding (line ++ ['\n'])) = take line := by
      rcases dropEnding_append line with heq | heq
      · rw [heq]
      · exact (hreturn _).symm.trans (congrArg take heq.symm)
    have ih : (lines t).filterMap take = (t.splitOn '\n').filterMap take :=
      filterMap_lines hempty hreturn t
    rw [hs, lines, pieces_append hline, List.splitOn_append_cons_self_of_not_mem hline,
      List.map_cons,
      List.filterMap_cons, List.filterMap_cons, hfirst, ← ih, lines]
  · rw [lines, pieces_of_not_mem hs, List.splitOn_eq_singleton hs]
    by_cases hnil : s = []
    · rw [if_pos hnil, hnil]
      simp [hempty]
    · rw [if_neg hnil, List.map_singleton, dropEnding_of_not_mem hs]
termination_by s.length
decreasing_by
  rw [hs, List.length_append, List.length_cons]
  omega

/-! ## Pieces -/

/-- A text in pieces.  A line feed ends every piece but the last one, which has one or not, and
stands nowhere else in a piece.  No piece is empty. -/
inductive InPieces : List Char → List (List Char) → Prop where
  | nil : InPieces [] []
  | unended {s : List Char} : s ≠ [] → '\n' ∉ s → InPieces s [s]
  | ended {line s : List Char} {ps : List (List Char)} : '\n' ∉ line → InPieces s ps →
    InPieces (line ++ '\n' :: s) ((line ++ ['\n']) :: ps)

/-- A character in front of a text is a piece of its own, or is part of the first one. -/
theorem inPieces_pieces (s : List Char) : InPieces s (pieces s) := by
  induction s with
  | nil => exact .nil
  | cons c s ih =>
    rw [pieces]
    by_cases hc : c = '\n'
    · rw [if_pos hc, hc]
      exact .ended List.not_mem_nil ih
    · rw [if_neg hc]
      have hother {line : List Char} (h : '\n' ∉ line) : '\n' ∉ c :: line :=
        List.not_mem_cons_of_ne_of_not_mem (Ne.symm hc) h
      generalize pieces s = ps at ih
      cases ih with
      | nil => exact .unended (List.cons_ne_nil _ _) (hother List.not_mem_nil)
      | unended _ h => exact .unended (List.cons_ne_nil _ _) (hother h)
      | ended h hrest => exact .ended (hother h) hrest

namespace InPieces

variable {s : List Char} {ps : List (List Char)}

theorem pieces_eq (h : InPieces s ps) : pieces s = ps := by
  induction h with
  | nil => rfl
  | unended hne h => rw [pieces_of_not_mem h, if_neg hne]
  | ended h _ ih => rw [pieces_append h, ih]

/-- A piece that stays keeps its line feed, so that it never runs into the next one. -/
theorem filter (h : InPieces s ps) (keep : List Char → Bool) :
    InPieces (ps.filter keep).flatten (ps.filter keep) := by
  induction h with
  | nil => exact .nil
  | @unended s hne h =>
    by_cases hkeep : keep s
    · rw [List.filter_cons_of_pos hkeep, List.filter_nil, List.flatten_singleton]
      exact .unended hne h
    · rw [List.filter_cons_of_neg hkeep]
      exact .nil
  | @ended line s ps h _ ih =>
    by_cases hkeep : keep (line ++ ['\n'])
    · rw [List.filter_cons_of_pos hkeep, List.flatten_cons, List.append_assoc]
      exact .ended h ih
    · rwa [List.filter_cons_of_neg hkeep]

theorem mem (h : InPieces s ps) {p : List Char} (hp : p ∈ ps) :
    '\n' ∉ p ∨ ∃ line, '\n' ∉ line ∧ p = line ++ ['\n'] := by
  induction h with
  | nil => cases hp
  | unended hne h =>
    rw [List.mem_singleton.1 hp]
    exact .inl h
  | ended h _ ih =>
    rcases List.mem_cons.1 hp with rfl | hp
    · exact .inr ⟨_, h, rfl⟩
    · exact ih hp

end InPieces

/-- Lines that end with their line feeds are the pieces of the text they make. -/
theorem pieces_flatten {ps : List (List Char)}
    (h : ∀ p ∈ ps, ∃ line, '\n' ∉ line ∧ p = line ++ ['\n']) : pieces ps.flatten = ps := by
  induction ps with
  | nil => rfl
  | cons p ps ih =>
    obtain ⟨line, hline, rfl⟩ := h p List.mem_cons_self
    rw [List.flatten_cons, List.append_assoc, List.singleton_append, pieces_append hline,
      ih fun p hp => h p (List.mem_cons_of_mem _ hp)]

/-- Without carriage returns a text has the same lines either way. -/
theorem diffLines_of_not_mem {s : List Char} (h : '\r' ∉ s) : diffLines s = pieces s := by
  fun_induction diffLines s with
  | case1 => rfl
  | case2 s ih => exact absurd List.mem_cons_self h
  | case3 c s hpair hc ih =>
    have hfeed : c = '\n' := hc.resolve_right fun hc => h (hc ▸ List.mem_cons_self)
    rw [pieces, if_pos hfeed, ih fun hs => h (List.mem_cons_of_mem c hs), hfeed]
  | case4 c s hpair hc hnil ih =>
    rw [pieces, if_neg fun hfeed => hc (.inl hfeed), ← ih fun hs => h (List.mem_cons_of_mem c hs),
      hnil]
  | case5 c s hpair hc p ps hcons ih =>
    rw [pieces, if_neg fun hfeed => hc (.inl hfeed), ← ih fun hs => h (List.mem_cons_of_mem c hs),
      hcons]

end LintHooks.Text
