import LintHooks.Json.Text
set_option autoImplicit false

/-!
# JSON: the grammar

What a JSON text is, without regard to how it is read.  A relation `G x s r` says that the text `s`
begins with an `x` and that `r` is what follows it; one `x` can be written in many ways.  A value is
kept as far as a program may want to know it: a number is any number, and a text whose escapes are
halves of pairs stands for no text at all.

`Document` is what a whole text is, and `Written` what a value is in it.  Lists and objects are
`Listed` in the same way, with their items as a parameter.  Nothing here knows of a reader; what is
shown is what any reader of such texts relies on.  The first character tells the kind of value
(`Written.head`, `Written.of_bracket`, `Written.of_brace`), what comes after an item shows that its
value has ended (`Listed.ended`), and values are not empty, so that there are fewer of them than
characters (`Written.length_lt`).
-/

namespace LintHooks.Json

/-! ## Space -/

/-- Some space, or none. -/
inductive Space : List Char → List Char → Prop where
  | none {s : List Char} : Space s s
  | more {c : Char} {s r : List Char} : isSpace c = true → Space s r → Space (c :: s) r

/-! ## Texts -/

/-- Four hexadecimal digits and the number they stand for. -/
inductive Code : Nat → List Char → List Char → Prop where
  | digits {a b c d : Char} {w x y z : Nat} {r : List Char} :
    hexValue? a = some w → hexValue? b = some x → hexValue? c = some y → hexValue? d = some z →
    Code (((w * 16 + x) * 16 + y) * 16 + z) (a :: b :: c :: d :: r) r

/-- A character that stands for itself between quotes. -/
def isPlain (c : Char) : Bool := c ≠ '"' && c ≠ '\\' && 0x20 ≤ c.toNat

/-- What follows an opening quote, up to the closing one, and the text that it spells.  A character
stands for itself, or it is given by a letter, by its code or by a pair of codes. -/
inductive Spelled : List Char → List Char → List Char → Prop where
  | quote {r : List Char} : Spelled [] ('"' :: r) r
  | plain {c : Char} {cs s r : List Char} : isPlain c = true → Spelled cs s r →
    Spelled (c :: cs) (c :: s) r
  | letter {c x : Char} {cs s r : List Char} : letterEscape? c = some x → Spelled cs s r →
    Spelled (x :: cs) ('\\' :: c :: s) r
  | code {n : Nat} {cs s t r : List Char} : Code n s t → isHighHalf n = false →
    isLowHalf n = false → Spelled cs t r → Spelled (Char.ofNat n :: cs) ('\\' :: 'u' :: s) r
  | pair {m n : Nat} {cs s t u r : List Char} : Code m s ('\\' :: 'u' :: t) → isHighHalf m = true →
    Code n t u → isLowHalf n = true → Spelled cs u r →
    Spelled (pairedChar m n :: cs) ('\\' :: 'u' :: s) r

/-- What follows an opening quote, up to the closing one, whatever its codes stand for. -/
inductive Body : List Char → List Char → Prop where
  | quote {r : List Char} : Body ('"' :: r) r
  | plain {c : Char} {s r : List Char} : isPlain c = true → Body s r → Body (c :: s) r
  | letter {c x : Char} {s r : List Char} : letterEscape? c = some x → Body s r →
    Body ('\\' :: c :: s) r
  | code {n : Nat} {s t r : List Char} : Code n s t → Body t r → Body ('\\' :: 'u' :: s) r

/-- A text between quotes; `none` if it spells no text. -/
inductive Quoted : Option String → List Char → List Char → Prop where
  | spelled {cs s r : List Char} : Spelled cs s r → Quoted (some (String.ofList cs)) ('"' :: s) r
  | broken {s r : List Char} : Body s r → (∀ cs, ¬ Spelled cs s r) → Quoted none ('"' :: s) r

/-! ## Numbers -/

/-- One digit or more. -/
inductive Digits : List Char → List Char → Prop where
  | one {c : Char} {r : List Char} : c.isDigit = true → Digits (c :: r) r
  | more {c : Char} {s r : List Char} : c.isDigit = true → Digits s r → Digits (c :: s) r

/-- The digits before the point, with no zero in front of others. -/
inductive Whole : List Char → List Char → Prop where
  | zero {r : List Char} : Whole ('0' :: r) r
  | digits {c : Char} {s r : List Char} : c ≠ '0' → Digits (c :: s) r → Whole (c :: s) r

/-- A point with digits, or nothing. -/
inductive Fraction : List Char → List Char → Prop where
  | none {r : List Char} : Fraction r r
  | some {s r : List Char} : Digits s r → Fraction ('.' :: s) r

/-- The sign of an exponent, or nothing. -/
inductive Sign : List Char → List Char → Prop where
  | none {r : List Char} : Sign r r
  | plus {r : List Char} : Sign ('+' :: r) r
  | minus {r : List Char} : Sign ('-' :: r) r

/-- An exponent, or nothing. -/
inductive Exponent : List Char → List Char → Prop where
  | none {r : List Char} : Exponent r r
  | some {e : Char} {s t r : List Char} : e = 'e' ∨ e = 'E' → Sign s t → Digits t r →
    Exponent (e :: s) r

/-- A number without its sign. -/
inductive Magnitude : List Char → List Char → Prop where
  | mk {s t u r : List Char} : Whole s t → Fraction t u → Exponent u r → Magnitude s r

/-! ## Values -/

/-- A value, as far as a program may want to know it. -/
inductive Value where
  | null
  | truth (b : Bool)
  | number
  /-- A text; `none` if its escapes spell none. -/
  | text (content : Option String)
  | list (items : List Value)
  | object (fields : List (Option String × Value))
  deriving Inhabited

/-- What stands before an item of a list: space, and a comma unless it is the first item. -/
inductive Gap : Bool → List Char → List Char → Prop where
  | start {s t : List Char} : Space s t → Gap true s t
  | comma {s t u : List Char} : Space s (',' :: t) → Space t u → Gap false s u

section Lists

variable {α : Type} (R : α → List Char → List Char → Prop) (bracket : Char)

/-- The items of a list and the bracket that ends it; `first` says that no item stands before
them. -/
inductive Listed : Bool → List α → List Char → List Char → Prop where
  | close {first : Bool} {s r : List Char} : Space s (bracket :: r) → Listed first [] s r
  | item {first : Bool} {x : α} {xs : List α} {s t u r : List Char} : Gap first s t → R x t u →
    Listed false xs u r → Listed first (x :: xs) s r

end Lists

/-- A key, a colon and a value. -/
inductive Entry (R : Value → List Char → List Char → Prop) :
    Option String × Value → List Char → List Char → Prop where
  | mk {key : Option String} {x : Value} {s t u v r : List Char} : Quoted key s t →
    Space t (':' :: u) → Space u v → R x v r → Entry R (key, x) s r

/-- A value and one of the ways to write it. -/
inductive Written : Value → List Char → List Char → Prop where
  | null {r : List Char} : Written .null ('n' :: 'u' :: 'l' :: 'l' :: r) r
  | trueWord {r : List Char} : Written (.truth true) ('t' :: 'r' :: 'u' :: 'e' :: r) r
  | falseWord {r : List Char} : Written (.truth false) ('f' :: 'a' :: 'l' :: 's' :: 'e' :: r) r
  | positive {s r : List Char} : Magnitude s r → Written .number s r
  | negative {s r : List Char} : Magnitude s r → Written .number ('-' :: s) r
  | text {content : Option String} {s r : List Char} : Quoted content s r →
    Written (.text content) s r
  | list {items : List Value} {s r : List Char} : Listed Written ']' true items s r →
    Written (.list items) ('[' :: s) r
  | object {fields : List (Option String × Value)} {s r : List Char} :
    Listed (Entry Written) '}' true fields s r → Written (.object fields) ('{' :: s) r

/-- A text that is one value and space around it. -/
def Document (v : Value) (s : List Char) : Prop :=
  ∃ t r, Space s t ∧ Written v t r ∧ Space r []

/-! ## What values begin with and what follows them -/

/-- The characters that a value can begin with. -/
def startsValue (c : Char) : Bool :=
  c.isDigit || ['n', 't', 'f', '-', '"', '[', '{'].contains c

/-- A text that goes on after a value: with space, a comma, a bracket or not at all. -/
def Ended : List Char → Prop
  | [] => True
  | c :: _ => isSpace c = true ∨ c ∈ [',', ']', '}']

theorem ne_of_startsValue {c d : Char} (hd : startsValue d = false) (hc : startsValue c = true) :
    c ≠ d := by
  rintro rfl
  rw [hd] at hc
  cases hc

theorem not_isSpace_of_startsValue {c : Char} (hc : startsValue c = true) : isSpace c = false := by
  have hblank := ne_of_startsValue (d := ' ') (by decide) hc
  have hfeed := ne_of_startsValue (d := '\n') (by decide) hc
  have htab := ne_of_startsValue (d := '\t') (by decide) hc
  have hreturn := ne_of_startsValue (d := '\r') (by decide) hc
  simp [isSpace, hblank, hfeed, htab, hreturn]

theorem startsValue_of_isDigit {c : Char} (hc : c.isDigit = true) : startsValue c = true := by
  simp [startsValue, hc]

theorem Digits.head {s r : List Char} (h : Digits s r) :
    ∃ c t, s = c :: t ∧ c.isDigit = true := by
  cases h with
  | one hc => exact ⟨_, _, rfl, hc⟩
  | more hc _ => exact ⟨_, _, rfl, hc⟩

theorem Magnitude.head {s r : List Char} (h : Magnitude s r) :
    ∃ c t, s = c :: t ∧ c.isDigit = true := by
  obtain ⟨hwhole, -, -⟩ := h
  cases hwhole with
  | zero => exact ⟨_, _, rfl, rfl⟩
  | digits _ hdigits => exact hdigits.head

theorem Quoted.head {s r : List Char} {content : Option String} (h : Quoted content s r) :
    ∃ t, s = '"' :: t := by
  cases h with
  | spelled _ => exact ⟨_, rfl⟩
  | broken _ _ => exact ⟨_, rfl⟩

theorem Written.head {s r : List Char} {v : Value} (h : Written v s r) :
    ∃ c t, s = c :: t ∧ startsValue c = true := by
  cases h with
  | positive hm =>
    obtain ⟨c, t, rfl, hc⟩ := hm.head
    exact ⟨c, t, rfl, startsValue_of_isDigit hc⟩
  | text hq =>
    obtain ⟨t, rfl⟩ := hq.head
    exact ⟨_, _, rfl, rfl⟩
  | _ => exact ⟨_, _, rfl, rfl⟩

/-! ### The sort of a value by its first character -/

section FirstCharacter

variable {v : Value} {s r : List Char}

/-- A number begins with no other character than a digit. -/
theorem Magnitude.not_head {c : Char} (hc : c.isDigit = false) : ¬ Magnitude (c :: s) r := by
  intro h
  obtain ⟨d, t, heq, hd⟩ := h.head
  rw [← (List.cons.inj heq).1, hc] at hd
  cases hd

theorem Written.of_quote (h : Written v ('"' :: s) r) :
    ∃ content, v = .text content ∧ Quoted content ('"' :: s) r := by
  cases h with
  | text hq => exact ⟨_, rfl, hq⟩
  | positive hm => exact absurd hm (Magnitude.not_head rfl)

theorem Written.of_bracket (h : Written v ('[' :: s) r) :
    ∃ vs, v = .list vs ∧ Listed Written ']' true vs s r := by
  cases h with
  | list hl => exact ⟨_, rfl, hl⟩
  | positive hm => exact absurd hm (Magnitude.not_head rfl)
  | text hq => cases hq.head.choose_spec

theorem Written.of_brace (h : Written v ('{' :: s) r) :
    ∃ fs, v = .object fs ∧ Listed (Entry Written) '}' true fs s r := by
  cases h with
  | object hl => exact ⟨_, rfl, hl⟩
  | positive hm => exact absurd hm (Magnitude.not_head rfl)
  | text hq => cases hq.head.choose_spec

theorem Written.of_n (h : Written v ('n' :: s) r) : v = .null ∧ s = 'u' :: 'l' :: 'l' :: r := by
  cases h with
  | null => exact ⟨rfl, rfl⟩
  | positive hm => exact absurd hm (Magnitude.not_head rfl)
  | text hq => cases hq.head.choose_spec

end FirstCharacter

/-- A text can be written as it is if each of its characters stands for itself. -/
theorem spelled_plain {cs : List Char} (h : cs.all isPlain = true) (r : List Char) :
    Spelled cs (cs ++ '"' :: r) r := by
  induction cs with
  | nil => exact .quote
  | cons c cs ih =>
    rw [List.all_cons, Bool.and_eq_true] at h
    exact .plain h.1 (ih h.2)

theorem quoted_plain (s : String) (h : s.toList.all isPlain = true) (r : List Char) :
    Quoted (some s) ('"' :: (s.toList ++ '"' :: r)) r := by
  have hquoted := Quoted.spelled (spelled_plain h r)
  rwa [String.ofList_toList] at hquoted

theorem Entry.head {R : Value → List Char → List Char → Prop} {x : Option String × Value}
    {s r : List Char} (h : Entry R x s r) : ∃ t, s = '"' :: t := by
  obtain ⟨hkey, -, -, -⟩ := h
  exact hkey.head

theorem Space.trans {s t r : List Char} (h : Space s t) (h' : Space t r) : Space s r := by
  induction h with
  | none => exact h'
  | more hc _ ih => exact .more hc (ih h')

theorem Gap.trans {first : Bool} {s t r : List Char} (h : Gap first s t) (h' : Space t r) :
    Gap first s r := by
  cases h with
  | start h => exact .start (h.trans h')
  | comma h h'' => exact .comma h (h''.trans h')

/-- Space before one of the characters that may follow a value. -/
theorem Space.ended {s r : List Char} {c : Char} (h : Space s (c :: r)) (hc : c ∈ [',', ']', '}']) :
    Ended s := by
  cases h with
  | none => exact .inr hc
  | more hspace _ => exact .inl hspace

theorem Space.ended_nil {s : List Char} (h : Space s []) : Ended s := by
  cases h with
  | none => trivial
  | more hspace _ => exact .inl hspace

/-- After an item of a list its value has ended. -/
theorem Listed.ended {α : Type} {R : α → List Char → List Char → Prop} {bracket : Char}
    {s r : List Char} {xs : List α} (h : Listed R bracket false xs s r)
    (hb : bracket ∈ [']', '}']) :
    Ended s := by
  cases h with
  | close hs => exact hs.ended (List.mem_cons_of_mem _ hb)
  | item hgap _ _ =>
    obtain ⟨⟩ | ⟨hs, -⟩ := hgap
    exact hs.ended (by simp)

/-! ## Lengths -/

theorem Space.length_le {s r : List Char} (h : Space s r) : r.length ≤ s.length := by
  induction h with
  | none => exact Nat.le_refl _
  | more _ _ ih => exact Nat.le_succ_of_le ih

theorem Code.length_eq {s r : List Char} {n : Nat} (h : Code n s r) : s.length = r.length + 4 := by
  cases h with
  | digits => rfl

theorem Body.length_lt {s r : List Char} (h : Body s r) : r.length < s.length := by
  induction h with
  | quote => exact Nat.lt_succ_self _
  | plain _ _ ih => exact Nat.lt_succ_of_lt ih
  | letter _ _ ih => exact Nat.lt_succ_of_lt (Nat.lt_succ_of_lt ih)
  | code hcode _ ih =>
    have := hcode.length_eq
    simp only [List.length_cons]
    omega

/-- What spells a text is well formed. -/
theorem Spelled.body {s cs r : List Char} (h : Spelled cs s r) : Body s r := by
  induction h with
  | quote => exact .quote
  | plain hc _ ih => exact .plain hc ih
  | letter hc _ ih => exact .letter hc ih
  | code hcode _ _ _ ih => exact .code hcode ih
  | pair hhigh _ hlow _ _ ih => exact .code hhigh (.code hlow ih)

theorem Quoted.length_lt {s r : List Char} {content : Option String} (h : Quoted content s r) :
    r.length < s.length := by
  cases h with
  | spelled hs => exact Nat.lt_succ_of_lt hs.body.length_lt
  | broken hb _ => exact Nat.lt_succ_of_lt hb.length_lt

theorem Digits.length_lt {s r : List Char} (h : Digits s r) : r.length < s.length := by
  induction h with
  | one _ => exact Nat.lt_succ_self _
  | more _ _ ih => exact Nat.lt_succ_of_lt ih

theorem Magnitude.length_lt {s r : List Char} (h : Magnitude s r) : r.length < s.length := by
  have hw : ∀ {s r : List Char}, Whole s r → r.length < s.length := by
    rintro _ _ (_ | ⟨_, hdigits⟩)
    · exact Nat.lt_succ_self _
    · exact hdigits.length_lt
  have hf : ∀ {s r : List Char}, Fraction s r → r.length ≤ s.length := by
    rintro _ _ (_ | hdigits)
    · exact Nat.le_refl _
    · exact Nat.le_succ_of_le (Nat.le_of_lt hdigits.length_lt)
  have hs : ∀ {s r : List Char}, Sign s r → r.length ≤ s.length := by
    rintro _ _ (_ | _ | _) <;> simp
  have he : ∀ {s r : List Char}, Exponent s r → r.length ≤ s.length := by
    rintro _ _ (_ | ⟨_, hsign, hdigits⟩)
    · exact Nat.le_refl _
    · exact Nat.le_succ_of_le (Nat.le_trans (Nat.le_of_lt hdigits.length_lt) (hs hsign))
  obtain ⟨hwhole, hfraction, hexponent⟩ := h
  exact Nat.lt_of_le_of_lt (Nat.le_trans (he hexponent) (hf hfraction)) (hw hwhole)

theorem Gap.length_le {first : Bool} {s t : List Char} (h : Gap first s t) :
    t.length ≤ s.length := by
  cases h with
  | start h => exact h.length_le
  | comma h h' =>
    have := h.length_le
    have := h'.length_le
    simp only [List.length_cons] at *
    omega

/-- No list is the empty text if none of its items is, at least up to a length. -/
theorem Listed.length_lt_of {α : Type} {R : α → List Char → List Char → Prop} {bracket : Char}
    {first : Bool} {xs : List α} {s r : List Char} {k : Nat} (h : Listed R bracket first xs s r)
    (hs : s.length < k) (hR : ∀ {x s r}, s.length < k → R x s r → r.length < s.length) :
    r.length < s.length := by
  induction h with
  | close hspace => exact hspace.length_le
  | item hgap hitem _ ih =>
    have hle := hgap.length_le
    have hlt := hR (by omega) hitem
    have := ih (by omega)
    omega

theorem Entry.length_lt_of {R : Value → List Char → List Char → Prop} {k : Nat} {s r : List Char}
    {x : Option String × Value} (h : Entry R x s r) (hs : s.length < k)
    (hR : ∀ {v s r}, s.length < k → R v s r → r.length < s.length) : r.length < s.length := by
  obtain ⟨hkey, hcolon, hspace, hvalue⟩ := h
  have h₁ := hkey.length_lt
  have h₂ := hcolon.length_le
  have h₃ := hspace.length_le
  simp only [List.length_cons] at h₂
  have h₄ := hR (by omega) hvalue
  omega

/-- No value is the empty text.  The induction is on a bound for the length, as values stand inside
values. -/
theorem Written.length_lt {s r : List Char} {v : Value} (h : Written v s r) :
    r.length < s.length := by
  have hbound : ∀ (k : Nat) {v : Value} {s r : List Char},
      s.length < k → Written v s r → r.length < s.length := by
    intro k
    induction k with
    | zero => exact fun hs => absurd hs (Nat.not_lt_zero _)
    | succ k ih =>
      intro v s r hs h
      cases h with
      | null => simp only [List.length_cons]; omega
      | trueWord => simp only [List.length_cons]; omega
      | falseWord => simp only [List.length_cons]; omega
      | positive hm => exact hm.length_lt
      | negative hm => exact Nat.lt_succ_of_lt hm.length_lt
      | text hq => exact hq.length_lt
      | list hl => exact Nat.lt_succ_of_lt (hl.length_lt_of (Nat.lt_of_succ_lt_succ hs) ih)
      | object hl =>
        refine Nat.lt_succ_of_lt (hl.length_lt_of (Nat.lt_of_succ_lt_succ hs) ?_)
        exact fun hs hentry => hentry.length_lt_of hs ih
  exact hbound _ (Nat.lt_succ_self _) h

theorem Entry.length_lt {s r : List Char} {x : Option String × Value} (h : Entry Written x s r) :
    r.length < s.length :=
  h.length_lt_of (Nat.lt_succ_self _) fun _ => Written.length_lt

end LintHooks.Json
