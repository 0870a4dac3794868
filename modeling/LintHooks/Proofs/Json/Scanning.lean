import LintHooks.Json.Value
import LintHooks.Proofs.Basic
import LintHooks.Proofs.Json.Grammar
set_option autoImplicit false

/-!
# JSON: scanning

The scanners take exactly what the grammar allows.  Space, escapes and texts are scanned as far as
they go; a number is, too, so it has to be known that what follows it cannot be a part of it.  A
value that nobody wants is skipped if and only if it is written as values are.

Each scanner has one equivalence: `readCode_eq_ok_iff`, `skipText_eq_ok_iff` and
`readText_eq_ok_iff`, `readColon_eq_ok_iff`; for numbers it is cut in two, as only one direction
needs to know what follows (`magnitude_of_skipNumber`, `Magnitude.skipNumber_eq`).  Skipping a value
is recursion on a bound for the parts it may have.  So the two directions are inductions on that
bound, `SkipSound` and `SkipComplete` say of all three of its functions what it allows, and the
results, in which there is no bound any more, are `written_of_skipAny` and `Written.skipAny_eq`.
-/

namespace LintHooks.Json

/-! ## Faults -/

section Faults

variable {α : Type} {reason : Reason} {s : List Char}

@[simp] theorem faultAt_ne_ok (a : α) : faultAt reason s ≠ .ok a := nofun

@[simp] theorem faultAhead_ne_ok (a : α) : faultAhead reason s ≠ .ok a := nofun

end Faults

/-! ## Space -/

theorem space_skipSpace (s : List Char) : Space s (skipSpace s) := by
  induction s with
  | nil => exact .none
  | cons c s ih =>
    rw [skipSpace, List.dropWhile_cons]
    split
    · next hc => exact .more hc ih
    · exact .none

theorem Space.skipSpace_eq {s r : List Char} (h : Space s r) : skipSpace s = skipSpace r := by
  induction h with
  | none => rfl
  | more hc _ ih => rw [← ih, skipSpace, List.dropWhile_cons, if_pos hc, skipSpace]

theorem skipSpace_cons {c : Char} {s : List Char} (hc : isSpace c = false) :
    skipSpace (c :: s) = c :: s := by
  simp [skipSpace, hc]

/-- Skipping space comes to the first character that is none. -/
theorem Space.skipSpace_cons {s r : List Char} {c : Char} (h : Space s (c :: r))
    (hc : isSpace c = false) : skipSpace s = c :: r :=
  h.skipSpace_eq.trans (Json.skipSpace_cons hc)

theorem Space.skipSpace_nil {s : List Char} (h : Space s []) : skipSpace s = [] := h.skipSpace_eq

theorem not_isSpace_of_skipSpace {s r : List Char} {c : Char} (h : skipSpace s = c :: r) :
    isSpace c = false := by
  have := List.head?_dropWhile_not isSpace s
  rw [skipSpace] at h
  rw [h] at this
  simpa using this

theorem space_of_skipSpace {s r : List Char} (h : skipSpace s = r) : Space s r :=
  h ▸ space_skipSpace s

/-! ## Texts -/

theorem readCode_eq_ok_iff {s r : List Char} {n : Nat} : readCode s = .ok (n, r) ↔ Code n s r := by
  constructor
  · intro h
    rw [readCode.eq_def] at h
    split at h
    · split at h
      · next ha hb hc hd =>
        cases h
        exact .digits ha hb hc hd
      · cases h
    · split at h <;> cases h
  · rintro ⟨ha, hb, hc, hd⟩
    rw [readCode]
    simp only [ha, hb, hc, hd]

/-- A character that stands for itself is no quote, no backslash and no control character. -/
theorem isPlain_iff {c : Char} : isPlain c = true ↔ c ≠ '"' ∧ c ≠ '\\' ∧ ¬ c.toNat < 0x20 := by
  simp [isPlain, and_assoc]

theorem ne_u_of_letterEscape? {c x : Char} (h : letterEscape? c = some x) : c ≠ 'u' := by
  rintro rfl
  cases h

theorem skipText_plain {c : Char} (hc : isPlain c = true) (s : List Char) :
    skipText (c :: s) = skipText s := by
  obtain ⟨hquote, hslash, hc⟩ := isPlain_iff.1 hc
  rw [skipText.eq_4 c s hquote hslash, if_neg hc]

theorem skipText_escape {s t : List Char} (h : skipEscape s = .ok t) :
    skipText ('\\' :: s) = skipText t := by
  rw [skipText.eq_3]
  split
  · next hescape => cases h.symm.trans hescape
  · next hescape =>
    cases h.symm.trans hescape
    rfl

theorem readText_plain {c : Char} (hc : isPlain c = true) (s : List Char) :
    readText (c :: s) = (readText s).map fun p => (c :: p.1, p.2) := by
  obtain ⟨hquote, hslash, hc⟩ := isPlain_iff.1 hc
  rw [readText.eq_4 c s hquote hslash, if_neg hc]
  cases readText s <;> rfl

theorem readText_escape {s t : List Char} {c : Char} (h : readEscape s = .ok (c, t)) :
    readText ('\\' :: s) = (readText t).map fun p => (c :: p.1, p.2) := by
  rw [readText.eq_3]
  split
  · next hescape => cases h.symm.trans hescape
  · next hescape =>
    cases h.symm.trans hescape
    cases readText t <;> rfl

/-- A text is skipped if and only if it is well formed. -/
theorem skipText_eq_ok_iff {s r : List Char} : skipText s = .ok r ↔ Body s r := by
  constructor
  · intro h
    fun_induction skipText s with
    | case1 => cases h
    | case2 s =>
      cases h
      exact .quote
    | case3 s f hescape => cases h
    | case4 s rest hescape _ ih =>
      cases s with
      | nil => cases hescape
      | cons c s =>
        rw [skipEscape] at hescape
        split at hescape
        · next hu =>
          obtain ⟨⟨n, t⟩, hcode, rfl⟩ := map_eq_ok_iff.1 hescape
          exact hu ▸ .code (readCode_eq_ok_iff.1 hcode) (ih h)
        · split at hescape
          · next hletter =>
            cases hescape
            exact .letter hletter (ih h)
          · cases hescape
    | case5 c s _ _ hc => cases h
    | case6 c s hquote hslash hc ih => exact .plain (isPlain_iff.2 ⟨hquote, hslash, hc⟩) (ih h)
  · intro h
    induction h with
    | quote => rw [skipText]
    | plain hc _ ih => rw [skipText_plain hc, ih]
    | @letter c x s r hletter _ ih =>
      have hescape : skipEscape (c :: s) = .ok s := by
        simp only [skipEscape, if_neg (ne_u_of_letterEscape? hletter), hletter]
      rw [skipText_escape hescape, ih]
    | @code n s t r hcode _ ih =>
      have hescape : skipEscape ('u' :: s) = .ok t := by
        simp only [skipEscape, if_true, readCode_eq_ok_iff.2 hcode, Except.map]
      rw [skipText_escape hescape, ih]

theorem readLowHalf_eq_ok_iff {s r : List Char} {n : Nat} :
    readLowHalf s = .ok (n, r) ↔ ∃ t, s = '\\' :: 'u' :: t ∧ Code n t r ∧ isLowHalf n = true := by
  constructor
  · intro h
    rw [readLowHalf.eq_def] at h
    split at h
    · split at h
      · cases h
      · next hcode =>
        split at h
        · next hlow =>
          cases h
          exact ⟨_, rfl, readCode_eq_ok_iff.1 hcode, hlow⟩
        · cases h
    all_goals cases h
  · rintro ⟨t, rfl, hcode, hlow⟩
    simp only [readLowHalf, readCode_eq_ok_iff.2 hcode, hlow, if_true]

theorem not_isLowHalf_of_isHighHalf {n : Nat} (h : isHighHalf n = true) : isLowHalf n = false := by
  rw [isHighHalf, Bool.and_eq_true, decide_eq_true_eq, decide_eq_true_eq] at h
  have hn : ¬ 0xDC00 ≤ n := Nat.not_le_of_lt (Nat.lt_succ_of_le h.2)
  rw [isLowHalf, decide_eq_false hn, Bool.false_and]

theorem spelled_of_readEscape {c : Char} {cs s t r : List Char} (h : readEscape s = .ok (c, t))
    (hrest : Spelled cs t r) : Spelled (c :: cs) ('\\' :: s) r := by
  cases s with
  | nil => cases h
  | cons x s =>
    rw [readEscape] at h
    split at h
    · next hu =>
      subst hu
      rw [readCodes] at h
      split at h
      · cases h
      · next n u hcode =>
        have hcode := readCode_eq_ok_iff.1 hcode
        split at h
        · cases h
        · next hlow =>
          split at h
          · next hhigh =>
            split at h
            · cases h
            · next hpair =>
              obtain ⟨_, rfl, hcode', hlow'⟩ := readLowHalf_eq_ok_iff.1 hpair
              obtain ⟨rfl, rfl⟩ := Prod.mk.inj (Except.ok.inj h)
              exact .pair hcode hhigh hcode' hlow' hrest
          · next hhigh =>
            obtain ⟨rfl, rfl⟩ := Prod.mk.inj (Except.ok.inj h)
            exact .code hcode (by simpa using hhigh) (by simpa using hlow) hrest
    · split at h
      · next hletter =>
        cases h
        exact .letter hletter hrest
      · cases h

/-- A text is read if and only if it is spelled so. -/
theorem readText_eq_ok_iff {cs s r : List Char} : readText s = .ok (cs, r) ↔ Spelled cs s r := by
  constructor
  · intro h
    fun_induction readText s generalizing cs r with
    | case1 => cases h
    | case2 s =>
      cases h
      exact .quote
    | case3 s f hescape => cases h
    | case4 s c rest hescape _ f hrest ih => cases h
    | case5 s c t hescape _ cs t' hrest ih =>
      cases h
      exact spelled_of_readEscape hescape (ih hrest)
    | case6 c s _ _ hc => cases h
    | case7 c s _ _ _ f hrest ih => cases h
    | case8 c s hquote hslash hc cs t hrest ih =>
      cases h
      exact .plain (isPlain_iff.2 ⟨hquote, hslash, hc⟩) (ih hrest)
  · intro h
    induction h with
    | quote => rw [readText]
    | plain hc _ ih => rw [readText_plain hc, ih, Except.map]
    | @letter c x cs s r hletter _ ih =>
      have hescape : readEscape (c :: s) = .ok (x, s) := by
        simp only [readEscape, if_neg (ne_u_of_letterEscape? hletter), hletter]
      rw [readText_escape hescape, ih, Except.map]
    | @code n cs s t r hcode hhigh hlow _ ih =>
      have hescape : readEscape ('u' :: s) = .ok (Char.ofNat n, t) := by
        simp only [readEscape, readCodes, if_true, readCode_eq_ok_iff.2 hcode, hhigh, hlow,
          Bool.false_eq_true, if_false]
      rw [readText_escape hescape, ih, Except.map]
    | @pair m n cs s t u r hcode hhigh hcode' hlow _ ih =>
      have hnot := not_isLowHalf_of_isHighHalf hhigh
      have hpair := readLowHalf_eq_ok_iff.2 ⟨t, rfl, hcode', hlow⟩
      have hescape : readEscape ('u' :: s) = .ok (pairedChar m n, u) := by
        simp only [readEscape, readCodes, if_true, readCode_eq_ok_iff.2 hcode, hhigh, hnot,
          Bool.false_eq_true, if_false, hpair]
      rw [readText_escape hescape, ih, Except.map]

/-- A text is a quoted one in at most one way. -/
theorem Body.unique {s r r' : List Char} (h : Body s r) (h' : Body s r') : r = r' :=
  Except.ok.inj ((skipText_eq_ok_iff.2 h).symm.trans (skipText_eq_ok_iff.2 h'))

/-- Every well-formed text between quotes is one, be it that it spells none. -/
theorem quoted_of_body {s r : List Char} (h : Body s r) :
    ∃ content, Quoted content ('"' :: s) r := by
  by_cases hspelled : ∃ cs, Spelled cs s r
  · obtain ⟨cs, hspelled⟩ := hspelled
    exact ⟨_, .spelled hspelled⟩
  · exact ⟨none, .broken h fun cs hcs => hspelled ⟨cs, hcs⟩⟩

theorem Quoted.body {content : Option String} {s r : List Char} (h : Quoted content ('"' :: s) r) :
    Body s r := by
  cases h with
  | spelled h => exact h.body
  | broken h _ => exact h

/-- What is read of a quoted text is what it spells. -/
theorem Quoted.readText_eq_ok_iff {content : Option String} {s r r' cs : List Char}
    (h : Quoted content ('"' :: s) r) :
    readText s = .ok (cs, r') ↔ r' = r ∧ content = some (String.ofList cs) := by
  rw [Json.readText_eq_ok_iff]
  constructor
  · intro hcs
    obtain rfl := hcs.body.unique h.body
    refine ⟨rfl, ?_⟩
    cases h with
    | spelled h' =>
      have := (Json.readText_eq_ok_iff.2 hcs).symm.trans (Json.readText_eq_ok_iff.2 h')
      rw [(Prod.mk.inj (Except.ok.inj this)).1]
    | broken _ hnone => exact absurd hcs (hnone cs)
  · rintro ⟨rfl, hcontent⟩
    cases h with
    | spelled h =>
      rw [String.ofList_inj.1 (Option.some.inj hcontent)] at h
      exact h
    | broken _ _ => cases hcontent

/-! ## Numbers -/

/-- A text that does not go on with a digit. -/
def NoDigit (s : List Char) : Prop := s.head?.any Char.isDigit = false

/-- A text that does not go on with what can be a part of a number. -/
def NoNumber (s : List Char) : Prop := NoDigit s ∧ ∀ c ∈ s.head?, c ≠ '.' ∧ c ≠ 'e' ∧ c ≠ 'E'

theorem Ended.noNumber {r : List Char} (h : Ended r) : NoNumber r := by
  cases r with
  | nil => exact ⟨rfl, nofun⟩
  | cons c r =>
    have hc : c ∈ [' ', '\n', '\t', '\r', ',', ']', '}'] := by
      simp only [Ended, isSpace, Bool.or_eq_true, decide_eq_true_eq] at h
      grind
    have hall : ∀ d ∈ [' ', '\n', '\t', '\r', ',', ']', '}'],
        d.isDigit = false ∧ d ≠ '.' ∧ d ≠ 'e' ∧ d ≠ 'E' := by simp
    exact ⟨(hall c hc).1, fun d hd => Option.some.inj hd ▸ (hall c hc).2⟩

theorem noDigit_cons {c : Char} {s : List Char} (hc : c.isDigit = false) : NoDigit (c :: s) := hc

theorem NoDigit.dropWhile_eq {s : List Char} (h : NoDigit s) : s.dropWhile Char.isDigit = s := by
  cases s with
  | nil => rfl
  | cons c s =>
    have hc : c.isDigit = false := h
    simp [hc]

theorem digits_dropWhile {s : List Char} (h : s.head?.any Char.isDigit = true) :
    Digits s (s.dropWhile Char.isDigit) := by
  induction s with
  | nil => cases h
  | cons c s ih =>
    have hc : c.isDigit = true := h
    rw [List.dropWhile_cons, if_pos hc]
    cases hs : s.head?.any Char.isDigit with
    | true => exact .more hc (ih hs)
    | false =>
      rw [NoDigit.dropWhile_eq hs]
      exact .one hc

theorem Digits.head?_any {s r : List Char} (h : Digits s r) : s.head?.any Char.isDigit = true := by
  obtain ⟨c, t, rfl, hc⟩ := h.head
  exact hc

/-- All digits there are belong to a number. -/
theorem Digits.dropWhile_eq {s r : List Char} (h : Digits s r) (hr : NoDigit r) :
    s.dropWhile Char.isDigit = r := by
  induction h with
  | one hc => rw [List.dropWhile_cons, if_pos hc, hr.dropWhile_eq]
  | more hc _ ih => rw [List.dropWhile_cons, if_pos hc, ih hr]

/-- An exponent begins after its sign. -/
theorem exists_sign (s : List Char) : ∃ t, Sign s t ∧ skipExponent s =
    if t.head?.any Char.isDigit then .ok (t.dropWhile Char.isDigit)
    else faultAhead .badNumber t := by
  rw [skipExponent.eq_def]
  split
  · exact ⟨_, .plus, rfl⟩
  · exact ⟨_, .minus, rfl⟩
  · exact ⟨_, .none, rfl⟩

theorem exponent_of_skipTail {s r : List Char} (h : skipTail s = .ok r) : Exponent s r := by
  have hexponent : ∀ {s r : List Char}, skipExponent s = .ok r → ∃ t, Sign s t ∧ Digits t r := by
    intro s r h
    obtain ⟨t, hsign, heq⟩ := exists_sign s
    rw [heq] at h
    split at h
    · next hdigit =>
      cases h
      exact ⟨t, hsign, digits_dropWhile hdigit⟩
    · cases h
  rw [skipTail.eq_def] at h
  split at h
  · obtain ⟨t, hsign, hdigits⟩ := hexponent h
    exact .some (.inl rfl) hsign hdigits
  · obtain ⟨t, hsign, hdigits⟩ := hexponent h
    exact .some (.inr rfl) hsign hdigits
  · cases h
    exact .none

theorem Exponent.skipTail_eq {s r : List Char} (h : Exponent s r) (hr : NoNumber r) :
    skipTail s = .ok r := by
  cases h with
  | none =>
    rw [skipTail.eq_def]
    split
    · exact absurd rfl (hr.2 _ rfl).2.1
    · exact absurd rfl (hr.2 _ rfl).2.2
    · rfl
  | @some e s t r he hsign hdigits =>
    have hexponent : skipExponent s = .ok r := by
      have heq : skipExponent s = if t.head?.any Char.isDigit then .ok (t.dropWhile Char.isDigit)
          else faultAhead .badNumber t := by
        cases hsign with
        | none =>
          obtain ⟨c, t, rfl, hc⟩ := hdigits.head
          rw [skipExponent.eq_def]
          split
          · next h => exact absurd hc (by rw [(List.cons.inj h).1]; decide)
          · next h => exact absurd hc (by rw [(List.cons.inj h).1]; decide)
          · rfl
        | plus => rfl
        | minus => rfl
      rw [heq, if_pos hdigits.head?_any, hdigits.dropWhile_eq hr.1]
    rcases he with rfl | rfl <;> exact hexponent

theorem magnitude_of_skipNumber {s r : List Char} (h : skipNumber s = .ok r) : Magnitude s r := by
  cases s with
  | nil => cases h
  | cons c more =>
    rw [skipNumber] at h
    split at h
    · cases h
    · next hdigit =>
      have hdigit : c.isDigit = true := by simpa using hdigit
      split at h
      · cases h
      · next hzeros =>
        have hwhole : Whole (c :: more)
            (if c = '0' then more else (c :: more).dropWhile Char.isDigit) := by
          split
          · next hzero => exact hzero ▸ .zero
          · next hzero => exact .digits hzero (digits_dropWhile hdigit)
        dsimp only at h
        revert hwhole h
        generalize (if c = '0' then more else (c :: more).dropWhile Char.isDigit) = t
        intro h hwhole
        split at h
        · split at h
          · next hfraction =>
            exact ⟨hwhole, .some (digits_dropWhile hfraction), exponent_of_skipTail h⟩
          · cases h
        · exact ⟨hwhole, .none, exponent_of_skipTail h⟩

/-- A point or an exponent, or what follows a number, is no digit. -/
theorem Exponent.noDigit {s r : List Char} (h : Exponent s r) (hr : NoNumber r) : NoDigit s := by
  cases h with
  | none => exact hr.1
  | some he _ _ => rcases he with rfl | rfl <;> exact noDigit_cons (by decide)

theorem Fraction.noDigit {s t r : List Char} (h : Fraction s t) (ht : Exponent t r)
    (hr : NoNumber r) : NoDigit s := by
  cases h with
  | none => exact ht.noDigit hr
  | some _ => exact noDigit_cons (by decide)

/-- What skips a number after the digits before the point. -/
theorem Fraction.skip_eq {s t r : List Char} (h : Fraction s t) (ht : Exponent t r)
    (hr : NoNumber r) :
    (match s with
      | '.' :: s =>
        if s.head?.any Char.isDigit then skipTail (s.dropWhile Char.isDigit)
        else faultAhead .badNumber s
      | s => skipTail s) = .ok r := by
  cases h with
  | some hdigits =>
    refine (if_pos hdigits.head?_any).trans ?_
    rw [hdigits.dropWhile_eq (ht.noDigit hr), ht.skipTail_eq hr]
  | none =>
    split
    · next s =>
      cases ht with
      | none => exact absurd rfl (hr.2 _ rfl).1
      | some he _ _ => rcases he with h | h <;> cases h
    · exact ht.skipTail_eq hr

/-- A number that cannot go on is skipped as a whole. -/
theorem Magnitude.skipNumber_eq {s r : List Char} (h : Magnitude s r) (hr : NoNumber r) :
    skipNumber s = .ok r := by
  obtain ⟨hwhole, hfraction, hexponent⟩ := h
  have hstop := hfraction.noDigit hexponent hr
  have hskip := hfraction.skip_eq hexponent hr
  cases hwhole with
  | zero =>
    rw [skipNumber, if_neg (by decide), if_neg (by rw [hstop]; decide)]
    exact hskip
  | digits hzero hdigits =>
    obtain ⟨c, s, heq, hc⟩ := hdigits.head
    obtain ⟨rfl, rfl⟩ := List.cons.inj heq
    rw [skipNumber, if_neg (by rw [hc]; decide), if_neg (by simp [hzero]), if_neg hzero,
      hdigits.dropWhile_eq hstop]
    exact hskip

/-! ## Values that nobody wants -/

theorem readWord_eq_ok_iff {letters s r : List Char} :
    readWord letters s = .ok r ↔ s = letters ++ r := by
  induction letters generalizing s with
  | nil => simp [readWord, eq_comm]
  | cons w ws ih =>
    cases s with
    | nil => simp [readWord]
    | cons c s =>
      rw [readWord]
      split
      · next heq => simp [ih, heq]
      · next heq => simp [Ne.symm heq]

theorem readColon_eq_ok_iff {s r : List Char} : readColon s = .ok r ↔ Space s (':' :: r) := by
  constructor
  · intro h
    rw [readColon] at h
    split at h
    · cases h
    · next hs =>
      split at h
      · next hcolon =>
        cases h
        exact hcolon ▸ space_of_skipSpace hs
      · cases h
  · intro h
    rw [readColon, h.skipSpace_cons (by decide)]
    rfl

/-! ### What is skipped -/

/-- What a bound lets be skipped of a value, of a list after its opening bracket and of an object
after its is written as they are. -/
structure SkipSound (n : Nat) : Prop where
  value {s r : List Char} : skipValue n s = .ok r → ∃ v t, Space s t ∧ Written v t r
  items {s r : List Char} : skipItems n s = .ok r → ∃ v vs t u, Space s t ∧ Written v t u ∧
    Listed Written ']' false vs u r
  fields {s r : List Char} : skipFields n s = .ok r → ∃ f fs t u, Space s t ∧ Entry Written f t u ∧
    Listed (Entry Written) '}' false fs u r

section Sound

variable {n : Nat} {s r : List Char}

theorem written_of_skipValue (ih : SkipSound n) (h : skipValue (n + 1) s = .ok r) :
    ∃ v t, Space s t ∧ Written v t r := by
  rw [skipValue] at h
  split at h
  · cases h
  next c rest hs =>
  -- The cases are those of the first character, in the order in which they are looked at.
  suffices hwritten : ∃ v, Written v (c :: rest) r by
    obtain ⟨v, hv⟩ := hwritten
    exact ⟨v, _, space_of_skipSpace hs, hv⟩
  split at h
  · next hc =>
    rw [hc, readWord_eq_ok_iff.1 h]
    exact ⟨_, .null⟩
  split at h
  · next hc =>
    rw [hc, readWord_eq_ok_iff.1 h]
    exact ⟨_, .trueWord⟩
  split at h
  · next hc =>
    rw [hc, readWord_eq_ok_iff.1 h]
    exact ⟨_, .falseWord⟩
  split at h
  · next hc =>
    rw [hc]
    exact ⟨_, .negative (magnitude_of_skipNumber h)⟩
  split at h
  · exact ⟨_, .positive (magnitude_of_skipNumber h)⟩
  split at h
  · next hc =>
    obtain ⟨content, hquoted⟩ := quoted_of_body (skipText_eq_ok_iff.1 h)
    rw [hc]
    exact ⟨_, .text hquoted⟩
  split at h
  · next hc =>
    rw [hc]
    split at h
    · cases h
    · next hclose =>
      cases h
      exact ⟨_, .list (.close (space_of_skipSpace hclose))⟩
    · obtain ⟨v, vs, t, u, hspace, hv, htail⟩ := ih.items h
      exact ⟨_, .list (.item (.start ((space_skipSpace _).trans hspace)) hv htail)⟩
  split at h
  · next hc =>
    rw [hc]
    split at h
    · cases h
    · next hclose =>
      cases h
      exact ⟨_, .object (.close (space_of_skipSpace hclose))⟩
    · obtain ⟨f, fs, t, u, hspace, hf, htail⟩ := ih.fields h
      exact ⟨_, .object (.item (.start ((space_skipSpace _).trans hspace)) hf htail)⟩
  · cases h

theorem listed_of_skipItems (ih : SkipSound n) (h : skipItems (n + 1) s = .ok r) :
    ∃ v vs t u, Space s t ∧ Written v t u ∧ Listed Written ']' false vs u r := by
  rw [skipItems] at h
  split at h
  · cases h
  next hvalue =>
  obtain ⟨v, t, hspace, hv⟩ := ih.value hvalue
  split at h
  · cases h
  · next hcomma =>
    obtain ⟨w, ws, t', u', hspace', hw, htail⟩ := ih.items h
    exact ⟨v, w :: ws, t, _, hspace, hv,
      .item (.comma (space_of_skipSpace hcomma) hspace') hw htail⟩
  · next hclose =>
    cases h
    exact ⟨v, [], t, _, hspace, hv, .close (space_of_skipSpace hclose)⟩
  · cases h

theorem listed_of_skipFields (ih : SkipSound n) (h : skipFields (n + 1) s = .ok r) :
    ∃ f fs t u, Space s t ∧ Entry Written f t u ∧ Listed (Entry Written) '}' false fs u r := by
  rw [skipFields] at h
  split at h
  · cases h
  next c rest hs =>
  split at h
  · cases h
  next hc =>
  obtain rfl : c = '"' := Decidable.not_not.1 hc
  split at h
  · cases h
  next hbody =>
  split at h
  · cases h
  next hcolon =>
  split at h
  · cases h
  next hvalue =>
  obtain ⟨key, hkey⟩ := quoted_of_body (skipText_eq_ok_iff.1 hbody)
  obtain ⟨v, t, hspace, hv⟩ := ih.value hvalue
  have hentry := Entry.mk hkey (readColon_eq_ok_iff.1 hcolon) hspace hv
  have hbegin := space_of_skipSpace hs
  split at h
  · cases h
  · next hcomma =>
    obtain ⟨f, fs, t', u', hspace', hf, htail⟩ := ih.fields h
    exact ⟨_, f :: fs, _, _, hbegin, hentry,
      .item (.comma (space_of_skipSpace hcomma) hspace') hf htail⟩
  · next hclose =>
    cases h
    exact ⟨_, [], _, _, hbegin, hentry, .close (space_of_skipSpace hclose)⟩
  · cases h

theorem skipSound (n : Nat) : SkipSound n := by
  induction n with
  | zero => exact ⟨nofun, nofun, nofun⟩
  | succ n ih => exact ⟨written_of_skipValue ih, listed_of_skipItems ih, listed_of_skipFields ih⟩

end Sound

/-! ### What can be skipped -/

/-- A bound allows for as many parts as there may be in a value, in a list after its opening bracket
and in an object after its. -/
structure SkipComplete (n : Nat) : Prop where
  value {v : Value} {s t r : List Char} : 2 * s.length < n → Space s t → Written v t r → Ended r →
    skipValue n s = .ok r
  items {v : Value} {vs : List Value} {s t u r : List Char} : 2 * s.length + 2 ≤ n → Space s t →
    Written v t u → Listed Written ']' false vs u r → skipItems n s = .ok r
  fields {f : Option String × Value} {fs : List (Option String × Value)} {s t u r : List Char} :
    2 * s.length + 2 ≤ n → Space s t → Entry Written f t u →
    Listed (Entry Written) '}' false fs u r → skipFields n s = .ok r

section Complete

variable {n : Nat} {s t u r : List Char}

theorem skipValue_eq (ih : SkipComplete n) {v : Value} (hn : 2 * s.length < n + 1)
    (hspace : Space s t) (hv : Written v t r) (hr : Ended r) : skipValue (n + 1) s = .ok r := by
  obtain ⟨c, t', rfl, hc⟩ := hv.head
  have hlength := hspace.length_le
  rw [List.length_cons] at hlength
  rw [skipValue, hspace.skipSpace_cons (not_isSpace_of_startsValue hc)]
  cases hv with
  | null => rfl
  | trueWord => rfl
  | falseWord => rfl
  | positive hm =>
    obtain ⟨d, u, heq, hd⟩ := hm.head
    obtain ⟨rfl, rfl⟩ := List.cons.inj heq
    have hne : ∀ e : Char, e.isDigit = false → c ≠ e := by
      rintro e he rfl
      cases he.symm.trans hd
    dsimp only
    rw [if_neg (hne 'n' rfl), if_neg (hne 't' rfl), if_neg (hne 'f' rfl), if_neg (hne '-' rfl),
      if_pos hd]
    exact hm.skipNumber_eq hr.noNumber
  | negative hm => exact hm.skipNumber_eq hr.noNumber
  | text hq =>
    obtain ⟨u, heq⟩ := hq.head
    obtain ⟨rfl, rfl⟩ := List.cons.inj heq
    exact skipText_eq_ok_iff.2 hq.body
  | list hl =>
    cases hl with
    | close hclose =>
      dsimp only
      rw [hclose.skipSpace_cons (by decide)]
      rfl
    | item hgap hv htail =>
      obtain ⟨hspace'⟩ := hgap
      obtain ⟨d, u, rfl, hd⟩ := hv.head
      have hle := hspace'.length_le
      have hitems := ih.items (by omega) .none hv htail
      have hbracket := ne_of_startsValue (d := ']') rfl hd
      dsimp only
      rw [hspace'.skipSpace_cons (not_isSpace_of_startsValue hd), if_neg (by decide),
        if_neg (by decide), if_neg (by decide), if_neg (by decide), if_neg (by decide),
        if_neg (by decide), if_pos rfl]
      split
      · next heq => cases heq
      · next heq => exact absurd (List.cons.inj heq).1 hbracket
      · exact hitems
  | object hl =>
    cases hl with
    | close hclose =>
      dsimp only
      rw [hclose.skipSpace_cons (by decide)]
      rfl
    | item hgap hf htail =>
      obtain ⟨hspace'⟩ := hgap
      obtain ⟨u, rfl⟩ := hf.head
      have hle := hspace'.length_le
      dsimp only
      rw [hspace'.skipSpace_cons (by decide)]
      exact ih.fields (by omega) .none hf htail

theorem skipItems_eq (ih : SkipComplete n) {v : Value} {vs : List Value}
    (hn : 2 * s.length + 2 ≤ n + 1) (hspace : Space s t) (hv : Written v t u)
    (htail : Listed Written ']' false vs u r) : skipItems (n + 1) s = .ok r := by
  rw [skipItems, ih.value (by omega) hspace hv (htail.ended (by decide))]
  dsimp only
  cases htail with
  | close hclose =>
    rw [hclose.skipSpace_cons (by decide)]
    rfl
  | item hgap hw htail =>
    obtain ⟨⟩ | ⟨hcomma, hspace'⟩ := hgap
    rw [hcomma.skipSpace_cons (by decide)]
    have h₁ := hspace.length_le
    have h₂ := hv.length_lt
    have h₃ := hcomma.length_le
    rw [List.length_cons] at h₃
    exact ih.items (by omega) hspace' hw htail

theorem skipFields_eq (ih : SkipComplete n) {f : Option String × Value}
    {fs : List (Option String × Value)} (hn : 2 * s.length + 2 ≤ n + 1) (hspace : Space s t)
    (hf : Entry Written f t u) (htail : Listed (Entry Written) '}' false fs u r) :
    skipFields (n + 1) s = .ok r := by
  have h₁ := hspace.length_le
  have h₂ := hf.length_lt
  obtain ⟨hkey, hcolon, hspace', hv⟩ := hf
  obtain ⟨t', rfl⟩ := hkey.head
  have h₃ := hkey.length_lt
  have h₄ := hcolon.length_le
  rw [List.length_cons] at h₄
  rw [skipFields, hspace.skipSpace_cons (by decide)]
  simp only [skipText_eq_ok_iff.2 hkey.body, readColon_eq_ok_iff.2 hcolon,
    ih.value (by omega) hspace' hv (htail.ended (by decide))]
  cases htail with
  | close hclose =>
    rw [hclose.skipSpace_cons (by decide)]
    rfl
  | item hgap hw htail =>
    obtain ⟨⟩ | ⟨hcomma, hspace''⟩ := hgap
    rw [hcomma.skipSpace_cons (by decide)]
    have h₅ := hcomma.length_le
    rw [List.length_cons] at h₅
    exact ih.fields (by omega) hspace'' hw htail

theorem skipComplete (n : Nat) : SkipComplete n := by
  induction n with
  | zero => constructor <;> intros <;> omega
  | succ n ih => exact ⟨skipValue_eq ih, skipItems_eq ih, skipFields_eq ih⟩

end Complete

/-- Any value is skipped up to its end. -/
theorem Written.skipAny_eq {v : Value} {s t r : List Char} (h : Written v t r) (hspace : Space s t)
    (hr : Ended r) : skipAny s = .ok r :=
  (skipComplete _).value (Nat.lt_succ_self _) hspace h hr

/-- What is skipped is a value. -/
theorem written_of_skipAny {s r : List Char} (h : skipAny s = .ok r) :
    ∃ v t, Space s t ∧ Written v t r :=
  (skipSound _).value h

end LintHooks.Json
