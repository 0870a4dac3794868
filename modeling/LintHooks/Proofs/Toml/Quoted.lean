import LintHooks.Toml.Quoted
set_option autoImplicit false

/-!
# TOML: what is written quoted is read back

Writing picks one of four forms for a text and reading has to undo each of them.  A
form is a sequence of pieces, one for each character, between two delimiters, so
every form gets two statements: a reader undoes one piece whatever stands behind it,
and it undoes the whole inside up to the closing delimiter.

The forms on several lines end with three quotes, and the text in front of them may
end with quotes of its own.  What makes them readable is that the inside never offers
three quotes in a row before the text is used up (`quotes_of_triple`), and that the
closing delimiter takes up to two quotes in front of it into the text.

The main result is `readQuoted?_writeQuoted`.  It has `readQuoted?_write`, which looks at the four
forms, and `QuoteForm.holds_of`, that the form which is chosen can hold the text.  The insides are
read by `readBasic?_escapeBasic`, `readLiteral?_inside`, `readLiteralLines?_inside` and
`readBasicLines?_escapeBasicLines`, each by induction on the text; in the last one the induction
carries along how many quotes stand in front of what is left.
-/

namespace LintHooks.Toml

variable {s t rest : List Char} {c : Char}

/-! ## Characters -/

theorem isPlain_of_isControl_eq_false (h : isControl c = false) (hn : c ≠ '\n') :
    isPlain c = true := by
  simp only [isControl, Bool.or_eq_false_iff, Bool.and_eq_false_iff, decide_eq_false_iff_not,
    ne_eq, Decidable.not_not] at h
  simp only [isPlain, Bool.or_eq_true, Bool.and_eq_true, decide_eq_true_eq, ne_eq]
  obtain ⟨(h | h) | h, hd⟩ := h
  · exact Or.inr ⟨Nat.le_of_not_lt h, hd⟩
  · exact Or.inl h
  · exact absurd h hn

theorem hexValue?_upperHexDigit : ∀ d < 16, hexValue? (upperHexDigit d) = some d := by decide

theorem toNat_lt_of_isControl (h : isControl c = true) : c.toNat < 128 := by
  simp only [isControl, Bool.or_eq_true, Bool.and_eq_true, decide_eq_true_eq] at h
  omega

/-- The four digits that are written for a character below 128 denote it. -/
theorem codePoint?_written (h : c.toNat < 128) :
    codePoint? ['0', '0', upperHexDigit (c.toNat / 16), upperHexDigit (c.toNat % 16)]
      = some c := by
  have zero : hexValue? '0' = some 0 := by decide
  have high := hexValue?_upperHexDigit (c.toNat / 16) (by omega)
  have low := hexValue?_upperHexDigit (c.toNat % 16) (by omega)
  have value : 16 * (c.toNat / 16) + c.toNat % 16 = c.toNat := by omega
  have valid : c.toNat.isValidChar := c.valid
  simp [codePoint?, zero, high, low, value, valid]

/-- A character of a basic form stands for itself or is written as an escape that reads back. -/
theorem escapeChar_spec (c : Char) :
    (escapeChar c = [c] ∧ c ≠ '\\' ∧ (isPlain c = true ∨ c = '\n'))
      ∨ ∃ e, escapeChar c = '\\' :: e ∧ ∀ t, readEscape? (e ++ t) = some (c, t) := by
  unfold escapeChar
  split
  · next h => exact Or.inr ⟨['b'], rfl, fun t => by rw [h]; rfl⟩
  split
  · next h => exact Or.inr ⟨['t'], rfl, fun t => by rw [h]; rfl⟩
  split
  · next h => exact Or.inr ⟨['f'], rfl, fun t => by rw [h]; rfl⟩
  split
  · next h => exact Or.inr ⟨['r'], rfl, fun t => by rw [h]; rfl⟩
  split
  · next h => exact Or.inr ⟨['\\'], rfl, fun t => by rw [h]; rfl⟩
  split
  · next h =>
    refine Or.inr ⟨_, rfl, fun t => ?_⟩
    simp only [List.cons_append, List.nil_append, readEscape?,
      codePoint?_written (toNat_lt_of_isControl h), Option.map_some]
  · next hb _ _ _ hs hc =>
    refine Or.inl ⟨rfl, hs, ?_⟩
    by_cases hn : c = '\n'
    · exact Or.inr hn
    · exact Or.inl (isPlain_of_isControl_eq_false (by simpa using hc) hn)

/-! ## The basic form on one line -/

theorem readBasic?_escape {e : List Char} (h : readEscape? (e ++ t) = some (c, t)) :
    readBasic? ('\\' :: (e ++ t)) = consFound c (readBasic? t) := by
  rw [readBasic?]
  split
  · next h' => rw [h] at h'; cases h'
  · next h' => rw [h] at h'; cases h'; rfl

theorem readBasic?_plain (hp : isPlain c = true) (hq : c ≠ '"') (hs : c ≠ '\\') :
    readBasic? (c :: t) = consFound c (readBasic? t) := by
  rw [readBasic?.eq_def]
  split <;> simp_all

/-- The piece that stands for a character in the basic form on one line is read back. -/
theorem readBasic?_piece (c : Char) (t : List Char) :
    readBasic? ((if c = '"' then ['\\', '"'] else if c = '\n' then ['\\', 'n'] else escapeChar c)
      ++ t) = consFound c (readBasic? t) := by
  split
  · next h => exact readBasic?_escape (e := ['"']) (by rw [h]; rfl)
  split
  · next h => exact readBasic?_escape (e := ['n']) (by rw [h]; rfl)
  · next hq hn =>
    rcases escapeChar_spec c with ⟨he, hs, hp | hp⟩ | ⟨e, he, hr⟩
    · rw [he, List.singleton_append, readBasic?_plain hp hq hs]
    · exact absurd hp hn
    · rw [he, List.cons_append, readBasic?_escape (hr t)]

theorem readBasic?_escapeBasic (s rest : List Char) :
    readBasic? (escapeBasic s ++ '"' :: rest) = some (s, rest) := by
  induction s with
  | nil => simp only [escapeBasic, List.nil_append, readBasic?]
  | cons c s ih =>
    rw [escapeBasic, List.append_assoc, readBasic?_piece, ih]
    rfl

/-! ## The literal form on one line -/

theorem readLiteral?_plain (hp : isPlain c = true) (hq : c ≠ '\'') :
    readLiteral? (c :: t) = consFound c (readLiteral? t) := by
  rw [readLiteral?.eq_def]
  split <;> simp_all

theorem readLiteral?_inside (hp : ∀ c ∈ s, isPlain c = true) (hq : '\'' ∉ s) (rest : List Char) :
    readLiteral? (s ++ '\'' :: rest) = some (s, rest) := by
  induction s with
  | nil => simp only [List.nil_append, readLiteral?]
  | cons c s ih =>
    obtain ⟨hc, hs⟩ := List.forall_mem_cons.1 hp
    rw [List.mem_cons, not_or] at hq
    rw [List.cons_append, readLiteral?_plain hc (Ne.symm hq.1), ih hs hq.2]
    rfl

/-! ## Three quotes -/

/-- The text begins with three quotes of a kind. -/
abbrev StartsTriple (q : Char) (s : List Char) : Prop := List.replicate 3 q <+: s

/-- Up to two quotes behind the closing delimiter are taken back into the text. -/
theorem closing_replicate {q : Char} {n : Nat} (hn : n ≤ 2) (hr : rest.head? ≠ some q) :
    closing q (List.replicate n q ++ rest) = (List.replicate n q, rest) := by
  match n, hn with
  | 2, _ => simp [closing, List.replicate]
  | 1, _ =>
    cases rest with
    | nil => simp [closing, List.replicate]
    | cons d rest =>
      have hd : d ≠ q := fun h => hr (by rw [h]; rfl)
      simp [closing, List.replicate, hd]
  | 0, _ =>
    match rest, hr with
    | [], _ => rfl
    | [d], hr =>
      have hd : d ≠ q := fun h => hr (by rw [h]; rfl)
      simp [closing, hd]
    | d :: d' :: rest, hr =>
      have hd : d ≠ q := fun h => hr (by rw [h]; rfl)
      simp [closing, hd]

/-- A few quotes in front of the closing delimiter are a few quotes behind it. -/
theorem replicate_append_triple (q : Char) (n : Nat) (rest : List Char) :
    List.replicate n q ++ q :: q :: q :: rest = q :: q :: q :: (List.replicate n q ++ rest) := by
  have h : List.replicate n q ++ List.replicate 3 q = List.replicate 3 q ++ List.replicate n q := by
    rw [List.replicate_append_replicate, List.replicate_append_replicate, Nat.add_comm]
  simpa [List.replicate] using congrArg (· ++ rest) h

/-! ## The literal form on several lines -/

/-- Three quotes up front that do not lie inside the text take its whole rest with them. -/
theorem eq_replicate_of_triple {q : Char} (hs : ¬ List.replicate 3 q <:+: s)
    (h : StartsTriple q (s ++ q :: q :: q :: rest)) : ∃ n ≤ 2, s = List.replicate n q := by
  match s, hs, h with
  | [], _, _ => exact ⟨0, by omega, rfl⟩
  | [a], _, h =>
    simp only [StartsTriple, List.replicate, List.cons_append, List.cons_prefix_cons] at h
    exact ⟨1, by omega, by rw [← h.1]; rfl⟩
  | [a, b], _, h =>
    simp only [StartsTriple, List.replicate, List.cons_append, List.cons_prefix_cons] at h
    exact ⟨2, by omega, by rw [← h.1, ← h.2.1]; rfl⟩
  | a :: b :: d :: s, hs, h =>
    simp only [StartsTriple, List.replicate, List.cons_append, List.cons_prefix_cons] at h
    refine absurd (List.IsPrefix.isInfix ⟨s, ?_⟩) hs
    rw [← h.1, ← h.2.1, ← h.2.2.1]
    rfl

theorem readLiteralLines?_triple (t : List Char) :
    readLiteralLines? ('\'' :: '\'' :: '\'' :: t) = some (closing '\'' t) := by
  rw [readLiteralLines?]

theorem readLiteralLines?_cons (hc : isPlain c = true ∨ c = '\n')
    (ht : ¬ StartsTriple '\'' (c :: t)) :
    readLiteralLines? (c :: t) = consFound c (readLiteralLines? t) := by
  rw [readLiteralLines?.eq_def]
  split
  · next h => cases h
  · next h =>
    rw [h] at ht
    exact absurd ⟨_, rfl⟩ ht
  · next h =>
    obtain ⟨rfl, -⟩ := List.cons.inj h
    exact absurd hc (by decide)
  · next h =>
    obtain ⟨rfl, rfl⟩ := List.cons.inj h
    rw [if_pos (by simpa using hc)]

theorem readLiteralLines?_inside (hc : ∀ c ∈ s, isPlain c = true ∨ c = '\n')
    (hs : ¬ List.replicate 3 '\'' <:+: s) (hr : rest.head? ≠ some '\'') :
    readLiteralLines? (s ++ '\'' :: '\'' :: '\'' :: rest) = some (s, rest) := by
  induction s with
  | nil =>
    rw [List.nil_append, readLiteralLines?_triple]
    exact congrArg some (closing_replicate (n := 0) (by omega) hr)
  | cons c s ih =>
    by_cases ht : StartsTriple '\'' (c :: s ++ '\'' :: '\'' :: '\'' :: rest)
    · obtain ⟨n, hn, hs⟩ := eq_replicate_of_triple hs ht
      rw [hs, replicate_append_triple, readLiteralLines?_triple, closing_replicate hn hr]
    · obtain ⟨hc, hcs⟩ := List.forall_mem_cons.1 hc
      have hs' : ¬ List.replicate 3 '\'' <:+: s := fun h =>
        hs (h.trans (List.suffix_cons c s).isInfix)
      rw [List.cons_append] at ht ⊢
      rw [readLiteralLines?_cons hc ht, ih hcs hs']
      rfl

/-! ## The basic form on several lines -/

theorem readBasicLines?_triple (t : List Char) :
    readBasicLines? ('"' :: '"' :: '"' :: t) = some (closing '"' t) := by
  rw [readBasicLines?]

theorem readBasicLines?_escape {e : List Char} (h : readEscape? (e ++ t) = some (c, t)) :
    readBasicLines? ('\\' :: (e ++ t)) = consFound c (readBasicLines? t) := by
  rw [readBasicLines?]
  split
  · next h' => rw [h] at h'; cases h'; rfl
  · next h' => rw [h] at h'; cases h'

theorem readBasicLines?_quote (t : List Char) :
    readBasicLines? ('\\' :: '"' :: t) = consFound '"' (readBasicLines? t) :=
  readBasicLines?_escape (e := ['"']) rfl

theorem readBasicLines?_cons (hc : isPlain c = true ∨ c = '\n') (hs : c ≠ '\\')
    (ht : ¬ StartsTriple '"' (c :: t)) :
    readBasicLines? (c :: t) = consFound c (readBasicLines? t) := by
  rw [readBasicLines?.eq_def]
  split
  · next h => cases h
  · next h =>
    rw [h] at ht
    exact absurd ⟨_, rfl⟩ ht
  · next h => exact absurd (List.cons.inj h).1 hs
  · next h =>
    obtain ⟨rfl, -⟩ := List.cons.inj h
    exact absurd hc (by decide)
  · next h =>
    obtain ⟨rfl, rfl⟩ := List.cons.inj h
    rw [if_pos (by simpa using hc)]

/-- What is written for a character other than a quote does not begin with one. -/
theorem not_prefix_escapeChar {k : Nat} (hq : c ≠ '"') :
    ¬ List.replicate (k + 1) '"' <+: escapeChar c ++ t := by
  rw [List.replicate_succ]
  rcases escapeChar_spec c with ⟨he, -, -⟩ | ⟨e, he, -⟩ <;>
    rw [he, List.cons_append, List.cons_prefix_cons] <;> rintro ⟨h, -⟩
  · exact hq h.symm
  · exact absurd h (by decide)

/-- With `run` quotes in front, the inside completes three of them only if nothing but quotes is
left of the text, and those stand as they are. -/
theorem quotes_of_triple {run : Nat} (hr : run ≤ 2)
    (h : List.replicate (3 - run) '"' <+: escapeBasicLines run s ++ '"' :: '"' :: '"' :: rest) :
    ∃ n, n + run ≤ 2 ∧ s = List.replicate n '"' ∧ escapeBasicLines run s = s := by
  induction s generalizing run with
  | nil => exact ⟨0, by omega, rfl, rfl⟩
  | cons c s ih =>
    obtain ⟨k, hk⟩ : ∃ k, 3 - run = k + 1 := ⟨2 - run, by omega⟩
    rw [hk] at h
    rw [escapeBasicLines] at h ⊢
    by_cases hq : c = '"'
    · rw [if_pos hq] at h ⊢
      by_cases h2 : run = 2
      · rw [if_pos h2, List.replicate_succ, List.cons_append, List.cons_prefix_cons] at h
        exact absurd h.1 (by decide)
      · rw [if_neg h2] at h ⊢
        rw [List.replicate_succ, List.cons_append, List.cons_prefix_cons,
          show k = 3 - (run + 1) by omega] at h
        obtain ⟨n, hn, hs, he⟩ := ih (by omega) h.2
        exact ⟨n + 1, by omega, by rw [hq, hs]; rfl, by rw [he, hq]⟩
    · rw [if_neg hq, List.append_assoc] at h
      split at h
      · rw [List.replicate_succ, List.singleton_append, List.cons_prefix_cons] at h
        exact absurd h.1 (by decide)
      · exact absurd h (not_prefix_escapeChar hq)

/-- One character of the inside is read back unless three quotes stand there, and no more than two
quotes stand in front of what is left. -/
theorem readBasicLines?_step {run : Nat} (hrun : run ≤ 2)
    (ht : ¬ StartsTriple '"' (escapeBasicLines run (c :: s) ++ t)) :
    ∃ next ≤ 2, readBasicLines? (escapeBasicLines run (c :: s) ++ t)
      = consFound c (readBasicLines? (escapeBasicLines next s ++ t)) := by
  rw [escapeBasicLines] at ht ⊢
  by_cases hq : c = '"'
  · rw [if_pos hq] at ht ⊢
    by_cases h2 : run = 2
    · refine ⟨0, by omega, ?_⟩
      rw [if_pos h2, List.cons_append, List.cons_append, readBasicLines?_quote, hq]
    · refine ⟨run + 1, by omega, ?_⟩
      rw [if_neg h2, List.cons_append] at ht ⊢
      rw [readBasicLines?_cons (Or.inl (by decide)) (by decide) ht, hq]
  · refine ⟨0, by omega, ?_⟩
    rw [if_neg hq, List.append_assoc] at ht ⊢
    by_cases hn : c = '\n'
    · rw [if_pos hn, List.singleton_append] at ht ⊢
      rw [readBasicLines?_cons (Or.inr rfl) (by decide) ht, hn]
    · rw [if_neg hn] at ht ⊢
      rcases escapeChar_spec c with ⟨he, hs, hc⟩ | ⟨e, he, hread⟩
      · rw [he, List.singleton_append] at ht ⊢
        exact readBasicLines?_cons hc hs ht
      · rw [he, List.cons_append]
        exact readBasicLines?_escape (hread _)

theorem readBasicLines?_escapeBasicLines {run : Nat} (hrun : run ≤ 2)
    (hr : rest.head? ≠ some '"') :
    readBasicLines? (escapeBasicLines run s ++ '"' :: '"' :: '"' :: rest) = some (s, rest) := by
  induction s generalizing run with
  | nil =>
    rw [escapeBasicLines, List.nil_append, readBasicLines?_triple]
    exact congrArg some (closing_replicate (n := 0) (by omega) hr)
  | cons c s ih =>
    by_cases ht : StartsTriple '"' (escapeBasicLines run (c :: s) ++ '"' :: '"' :: '"' :: rest)
    · -- The text is used up but for its last quotes, which the closing delimiter takes in.
      have hp : List.replicate (3 - run) '"' <+: List.replicate 3 '"' :=
        List.prefix_replicate_iff.2 ⟨by simp, by simp⟩
      obtain ⟨n, hn, hs, he⟩ := quotes_of_triple hrun (hp.trans ht)
      rw [he, hs, replicate_append_triple, readBasicLines?_triple,
        closing_replicate (by omega) hr]
    · obtain ⟨next, hnext, hstep⟩ := readBasicLines?_step hrun ht
      rw [hstep, ih hnext]
      rfl

/-! ## Runs -/

theorem longestRunFrom_mono {q : Char} {a b : Nat} (h : a ≤ b) (s : List Char) :
    longestRunFrom q a s ≤ longestRunFrom q b s := by
  induction s generalizing a b with
  | nil => simpa [longestRunFrom] using h
  | cons c s ih =>
    rw [longestRunFrom, longestRunFrom]
    split
    · exact ih (by omega)
    · omega

theorem le_longestRunFrom_of_prefix {q : Char} {n m : Nat}
    (h : List.replicate n q <+: s) : m + n ≤ longestRunFrom q m s := by
  induction s generalizing n m with
  | nil =>
    have hn : n = 0 := by simpa using h
    simp [longestRunFrom, hn]
  | cons c s ih =>
    cases n with
    | zero =>
      rw [longestRunFrom]
      split
      · have := ih (n := 0) (m := m + 1) (List.nil_prefix)
        omega
      · omega
    | succ n =>
      rw [List.replicate_succ, List.cons_prefix_cons] at h
      have := ih (m := m + 1) h.2
      rw [longestRunFrom, if_pos h.1.symm]
      omega

/-- A run inside a text is no longer than its longest one. -/
theorem le_longestRun_of_infix {q : Char} {n : Nat} (h : List.replicate n q <:+: s) :
    n ≤ longestRun q s := by
  induction s with
  | nil =>
    have hn : n = 0 := by simpa using h
    omega
  | cons c s ih =>
    rcases List.infix_cons_iff.1 h with h | h
    · have := le_longestRunFrom_of_prefix (m := 0) h
      rw [longestRun]
      omega
    · have hs := ih h
      have hmono := longestRunFrom_mono (q := q) (Nat.zero_le 1) s
      rw [longestRun] at hs ⊢
      rw [longestRunFrom]
      split
      · exact Nat.le_trans hs hmono
      · omega

theorem not_mem_of_longestRun_eq_zero {q : Char} (h : longestRun q s = 0) : q ∉ s := by
  intro hq
  obtain ⟨a, b, rfl⟩ := List.append_of_mem hq
  have hi : List.replicate 1 q <:+: a ++ q :: b := ⟨a, b, by simp⟩
  have := le_longestRun_of_infix hi
  omega

/-! ## The form of a text -/

/-- What a form asks of the text that it holds.  Basic forms ask nothing, as they have escapes. -/
def QuoteForm.Holds (s : List Char) : QuoteForm → Prop
  | .basic => True
  | .basicLines => True
  | .literal => s ≠ [] ∧ '\'' ∉ s ∧ ∀ c ∈ s, isPlain c = true
  | .literalLines => ¬ List.replicate 3 '\'' <:+: s ∧ ∀ c ∈ s, isPlain c = true ∨ c = '\n'

/-- The form that is chosen for a text can hold it. -/
theorem QuoteForm.holds_of (s : List Char) : (QuoteForm.of s).Holds s := by
  have plain (hc : s.any isControl = false) (c : Char) (h : c ∈ s) :
      isPlain c = true ∨ c = '\n' := by
    by_cases hn : c = '\n'
    · exact Or.inr hn
    · exact Or.inl (isPlain_of_isControl_eq_false (by simpa using List.any_eq_false.1 hc c h) hn)
  dsimp only [QuoteForm.of]
  split
  · trivial
  split
  · next hbasic h =>
    simp only [Bool.and_eq_true, Bool.not_eq_true', decide_eq_true_eq] at h hbasic
    obtain ⟨⟨hc, hrun⟩, hn⟩ := h
    refine ⟨?_, not_mem_of_longestRun_eq_zero hrun, fun c hs => (plain hc c hs).resolve_right ?_⟩
    · rintro rfl
      exact hbasic (by decide)
    · rintro rfl
      simp [hs] at hn
  split
  · trivial
  split
  · next h =>
    simp only [Bool.and_eq_true, Bool.not_eq_true', decide_eq_true_eq] at h
    refine ⟨fun h3 => ?_, plain h.1⟩
    have := le_longestRun_of_infix h3
    omega
  split <;> trivial

/-! ## Reading any form -/

/-- What stands behind a quoted text must not go on with a quote. -/
structure Unquoted (rest : List Char) : Prop where
  double : rest.head? ≠ some '"'
  single : rest.head? ≠ some '\''

theorem unquoted_cons (hd : c ≠ '"') (hs : c ≠ '\'') (t : List Char) : Unquoted (c :: t) :=
  ⟨fun h => hd (Option.some.inj h), fun h => hs (Option.some.inj h)⟩

theorem dropLineFeed_lineFeed (t : List Char) : dropLineFeed ('\n' :: t) = t := rfl

theorem dropLineFeed_plain (h : isPlain c = true) (t : List Char) :
    dropLineFeed (c :: t) = c :: t := by
  have hc : afterLineFeed? (c :: t) = none := by
    unfold afterLineFeed?
    split
    · next he =>
      obtain ⟨rfl, -⟩ := List.cons.inj he
      exact absurd h (by decide)
    · next he =>
      obtain ⟨rfl, -⟩ := List.cons.inj he
      exact absurd h (by decide)
    · rfl
  rw [dropLineFeed, hc, Option.getD_none]

theorem readQuoted?_basic (h : ¬ ['"', '"'] <+: t) : readQuoted? ('"' :: t) = readBasic? t := by
  rw [readQuoted?.eq_def]
  split
  · next he =>
    obtain ⟨-, rfl⟩ := List.cons.inj he
    exact absurd ⟨_, rfl⟩ h
  · next he =>
    obtain ⟨-, rfl⟩ := List.cons.inj he
    rfl
  · next he => exact absurd (List.cons.inj he).1 (by decide)
  · next he => exact absurd (List.cons.inj he).1 (by decide)
  · next _ h _ _ => exact absurd rfl (h t)

theorem readQuoted?_literal (h : ¬ ['\'', '\''] <+: t) :
    readQuoted? ('\'' :: t) = readLiteral? t := by
  rw [readQuoted?.eq_def]
  split
  · next he => exact absurd (List.cons.inj he).1 (by decide)
  · next he => exact absurd (List.cons.inj he).1 (by decide)
  · next he =>
    obtain ⟨-, rfl⟩ := List.cons.inj he
    exact absurd ⟨_, rfl⟩ h
  · next he =>
    obtain ⟨-, rfl⟩ := List.cons.inj he
    rfl
  · next _ _ _ h => exact absurd rfl (h t)

/-- The inside of a basic form on one line never begins with the closing quote. -/
theorem not_prefix_escapeBasic (hr : rest.head? ≠ some '"') :
    ¬ ['"', '"'] <+: escapeBasic s ++ '"' :: rest := by
  intro h
  cases s with
  | nil =>
    rw [escapeBasic, List.nil_append, List.cons_prefix_cons] at h
    obtain ⟨t, rfl⟩ := h.2
    exact hr rfl
  | cons c s =>
    rw [escapeBasic, List.append_assoc] at h
    split at h
    · exact absurd (List.cons_prefix_cons.1 h).1 (by decide)
    split at h
    · exact absurd (List.cons_prefix_cons.1 h).1 (by decide)
    · next hq _ => exact not_prefix_escapeChar (k := 1) hq h

/-- Without a line feed in the text, no line feed stands behind the opening quotes. -/
theorem dropLineFeed_escapeBasicLines (hn : '\n' ∉ s) (t : List Char) :
    dropLineFeed (escapeBasicLines 0 s ++ '"' :: t) = escapeBasicLines 0 s ++ '"' :: t := by
  cases s with
  | nil => exact dropLineFeed_plain (by decide) t
  | cons c s =>
    rw [List.mem_cons, not_or] at hn
    rw [escapeBasicLines, if_neg (by decide : ¬ (0 : Nat) = 2)]
    split
    · exact dropLineFeed_plain (by decide) _
    · rw [if_neg (Ne.symm hn.1), List.append_assoc]
      rcases escapeChar_spec c with ⟨he, -, hp | hp⟩ | ⟨e, he, -⟩
      · rw [he]
        exact dropLineFeed_plain hp _
      · exact absurd hp.symm hn.1
      · rw [he]
        exact dropLineFeed_plain (by decide) _

/-- Without a line feed in the text, no line feed stands behind the opening apostrophes. -/
theorem dropLineFeed_inside (hn : '\n' ∉ s) (hc : ∀ c ∈ s, isPlain c = true ∨ c = '\n')
    (t : List Char) : dropLineFeed (s ++ '\'' :: t) = s ++ '\'' :: t := by
  cases s with
  | nil => exact dropLineFeed_plain (by decide) t
  | cons c s =>
    rw [List.mem_cons, not_or] at hn
    exact dropLineFeed_plain ((hc c List.mem_cons_self).resolve_right (Ne.symm hn.1)) _

/-- Every form gives the text back that it holds, and what stands behind it. -/
theorem readQuoted?_write {form : QuoteForm} (h : form.Holds s) (hr : Unquoted rest) :
    readQuoted? (form.write s ++ rest) = some (s, rest) := by
  cases form with
  | basic =>
    simp only [QuoteForm.write, List.append_assoc, List.singleton_append]
    rw [List.cons_append, readQuoted?_basic (not_prefix_escapeBasic hr.double),
      readBasic?_escapeBasic]
  | literal =>
    obtain ⟨hne, hq, hc⟩ := h
    obtain ⟨c, s, rfl⟩ := List.exists_cons_of_ne_nil hne
    have hopen : ¬ ['\'', '\''] <+: c :: s ++ '\'' :: rest := fun h =>
      hq (by rw [(List.cons_prefix_cons.1 h).1]; exact List.mem_cons_self)
    simp only [QuoteForm.write, List.append_assoc, List.singleton_append]
    rw [List.cons_append, readQuoted?_literal hopen, readLiteral?_inside hc hq]
  | basicLines =>
    simp only [QuoteForm.write, List.append_assoc, List.cons_append, List.nil_append]
    rw [readQuoted?]
    by_cases hn : '\n' ∈ s
    · rw [if_pos (by simpa using hn), List.singleton_append, dropLineFeed_lineFeed,
        readBasicLines?_escapeBasicLines (by omega) hr.double]
    · rw [if_neg (by simpa using hn), List.nil_append, dropLineFeed_escapeBasicLines hn,
        readBasicLines?_escapeBasicLines (by omega) hr.double]
  | literalLines =>
    obtain ⟨hq, hc⟩ := h
    simp only [QuoteForm.write, List.append_assoc, List.cons_append, List.nil_append]
    rw [readQuoted?]
    by_cases hn : '\n' ∈ s
    · rw [if_pos (by simpa using hn), List.singleton_append, dropLineFeed_lineFeed,
        readLiteralLines?_inside hc hq hr.single]
    · rw [if_neg (by simpa using hn), List.nil_append, dropLineFeed_inside hn hc,
        readLiteralLines?_inside hc hq hr.single]

/-- What is written for a text is read back as that text. -/
theorem readQuoted?_writeQuoted (hr : Unquoted rest) :
    readQuoted? (writeQuoted s ++ rest) = some (s, rest) :=
  readQuoted?_write (QuoteForm.holds_of s) hr

/-- A written text begins with a quote of either kind. -/
theorem writeQuoted_head (s : List Char) :
    ∃ q t, writeQuoted s = q :: t ∧ (q = '"' ∨ q = '\'') := by
  rw [writeQuoted]
  cases QuoteForm.of s with
  | basic => exact ⟨'"', _, rfl, Or.inl rfl⟩
  | literal => exact ⟨'\'', _, rfl, Or.inr rfl⟩
  | basicLines => exact ⟨'"', _, rfl, Or.inl rfl⟩
  | literalLines => exact ⟨'\'', _, rfl, Or.inr rfl⟩

end LintHooks.Toml
