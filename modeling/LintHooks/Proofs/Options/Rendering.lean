import LintHooks.Options.Parse
import LintHooks.Proofs.Options.Sorting
import LintHooks.Proofs.Text.Basic
set_option autoImplicit false

/-!
# Options: one token for one option

An option and its value can always be written as one token.  Sorting sees at that token
alone that it belongs to the hook, and reading accepts it at once, without an option that
stays pending.  So a list of such tokens is read one by one, whatever stands in the
values, as long as no option is given twice that may stand once only.

The main result is `run_tokens`.  That both scanners see the same in a token is `Valid.word`, from
which follow what sorting does with it (`Valid.kindOf_token`) and what reading does
(`Valid.step_token`).  The induction on the options (`foldlM_step_tokens`) carries along which of
them have been given, as `Once` is about the whole list.
-/

namespace LintHooks

/-! ## Looks of tokens -/

namespace Word

theorem ofToken_double {token : String} {body : List Char} (h : token.toList = '-' :: '-' :: body)
    (hb : body ≠ []) :
    ofToken token = match Text.cut? '=' body with
      | some (name, value) => .long (String.ofList name) (some (String.ofList value))
      | none => .long (String.ofList body) none := by
  rw [ofToken, h]
  cases body with
  | nil => exact absurd rfl hb
  | cons c body => rfl

theorem ofToken_named {name : String} (h : '=' ∉ name.toList) (value : String) :
    ofToken ("--" ++ name ++ "=" ++ value) = .long name (some value) := by
  have ht : ("--" ++ name ++ "=" ++ value).toList =
      '-' :: '-' :: (name.toList ++ '=' :: value.toList) := by simp
  have hb : name.toList ++ '=' :: value.toList ≠ [] :=
    List.append_ne_nil_of_right_ne_nil _ (List.cons_ne_nil _ _)
  rw [ofToken_double ht hb, Text.cut?_append h]
  simp

theorem ofToken_name {name : String} (h : '=' ∉ name.toList) (hne : name ≠ "") :
    ofToken ("--" ++ name) = .long name none := by
  have ht : ("--" ++ name).toList = '-' :: '-' :: name.toList := by simp
  have hb : name.toList ≠ [] := fun hb => hne (String.toList_eq_nil_iff.1 hb)
  rw [ofToken_double ht hb, Text.cut?_eq_none h]
  simp

theorem ofToken_letter {letter : Char} (h : letter ≠ '-') (rest : String) :
    ofToken ("-" ++ String.singleton letter ++ rest) = .short letter rest := by
  have ht : ("-" ++ String.singleton letter ++ rest).toList = '-' :: letter :: rest.toList := by
    simp
  rw [ofToken, ht]
  split
  · next he => exact absurd (List.cons.inj (List.cons.inj he).2).1 h
  · next he => exact absurd (List.cons.inj (List.cons.inj he).2).1 h
  · next he =>
    obtain ⟨rfl, rfl⟩ := List.cons.inj (List.cons.inj he).2
    rw [String.ofList_toList]
  · next hn => exact absurd rfl (hn letter rest.toList)

end Word

/-! ## Spellings -/

namespace Opt

variable {o : Opt}

theorem ofLong?_of_long? {name : String} (h : o.long? = some name) :
    ofLong? name = some o ∧ '=' ∉ name.toList ∧ name ≠ "" := by
  have table : ∀ o ∈ all, ∀ name ∈ o.long?,
      ofLong? name = some o ∧ '=' ∉ name.toList ∧ name ≠ "" := by decide
  exact table o (mem_all o) name h

theorem ofShort?_of_short? {letter : Char} (h : o.short? = some letter) :
    ofShort? letter = some o ∧ letter ≠ '-' := by
  cases o <;> cases h <;> decide

theorem exists_short?_of_long? (h : o.long? = none) :
    (∃ letter, o.short? = some letter) ∧ o.takesValue = true := by
  cases o <;> first | exact ⟨⟨_, rfl⟩, rfl⟩ | cases h

theorem attachedValue_of_mem_choices {value : String} (h : value ∈ o.choices) :
    value ≠ "" ∧ Reading.attachedValue value = some value := by
  have table : ∀ o ∈ all, ∀ value ∈ o.choices,
      value ≠ "" ∧ Reading.attachedValue value = some value := by decide
  exact table o (mem_all o) value h

end Opt

/-! ## Tokens that need no other -/

namespace Occurrence

/-- The token that gives an option its value.  A letter takes its value behind a `=`, unless the
option has a list of choices. -/
def token (x : Occurrence) : String :=
  match x.opt.long?, x.opt.short? with
  | some name, _ => if x.opt.takesValue then "--" ++ name ++ "=" ++ x.value else "--" ++ name
  | none, some letter =>
    "-" ++ String.singleton letter ++ (if x.opt.choices = [] then "=" else "") ++ x.value
  | none, none => ""

/-- The value of an option as far as it takes one. -/
def value? (x : Occurrence) : Option String := if x.opt.takesValue then some x.value else none

/-- An option and a value that nothing is wrong with. -/
structure Valid (executable : String → Bool) (x : Occurrence) : Prop where
  notHelp : x.opt ≠ .help
  flag : x.opt.takesValue = false → x.value = ""
  nonEmpty : x.opt.refusesEmpty = true → x.value ≠ ""
  accepted : x.opt.accepts x.value = true
  executable : x.opt = .cmake → executable x.value = true

variable {executable : String → Bool} {x : Occurrence} {r : Reading}

/-- Both forms of a token say which option it is and what its value is. -/
theorem Valid.word (h : x.Valid executable) :
    (∃ name, Opt.ofLong? name = some x.opt ∧ Word.ofToken x.token = .long name x.value?)
      ∨ ∃ letter attached, Opt.ofShort? letter = some x.opt
        ∧ Word.ofToken x.token = .short letter attached ∧ x.opt.takesValue = true
        ∧ attached ≠ "" ∧ x.opt.accepts attached = true
        ∧ Reading.attachedValue attached = some x.value := by
  cases hl : x.opt.long? with
  | some name =>
    obtain ⟨ho, heq, hne⟩ := Opt.ofLong?_of_long? hl
    refine .inl ⟨name, ho, ?_⟩
    cases ht : x.opt.takesValue with
    | true => simp only [token, hl, value?, ht, if_true, Word.ofToken_named heq]
    | false => simp [token, hl, value?, ht, Word.ofToken_name heq hne]
  | none =>
    obtain ⟨⟨letter, hs⟩, ht⟩ := Opt.exists_short?_of_long? hl
    obtain ⟨ho, hletter⟩ := Opt.ofShort?_of_short? hs
    by_cases hc : x.opt.choices = []
    · refine .inr ⟨letter, "=" ++ x.value, ho, ?_, ht, ?_, ?_, ?_⟩
      · simp only [token, hl, hs, hc, if_true, String.append_assoc]
        rw [← String.append_assoc]
        exact Word.ofToken_letter hletter _
      · simp
      · simp [Opt.accepts, hc]
      · simp [Reading.attachedValue]
    -- Without a `=` the value must not begin with one, and no choice does.
    · have hmem : x.value ∈ x.opt.choices := Opt.mem_choices_of_accepts hc h.accepted
      obtain ⟨hne, hattached⟩ := Opt.attachedValue_of_mem_choices hmem
      refine .inr ⟨letter, x.value, ho, ?_, ht, hne, h.accepted, hattached⟩
      simp only [token, hl, hs, hc, if_false, String.append_empty]
      exact Word.ofToken_letter hletter _

theorem Valid.kindOf_token (h : x.Valid executable) : Invocation.kindOf x.token = .whole := by
  rcases h.word with ⟨name, ho, hw⟩ | ⟨letter, attached, ho, hw, ht, hne, ha, -⟩
  · rw [Invocation.kindOf, hw]
    cases ht : x.opt.takesValue <;> simp [ho, value?, ht]
  · rw [Invocation.kindOf, hw]
    simp [ho, ht, hne, ha]

theorem Valid.checkValue (h : x.Valid executable) :
    Reading.checkValue executable x.opt x.value = .ok () := by
  have he : (x.opt.refusesEmpty && x.value = "") = false := by
    rw [Bool.and_eq_false_imp]
    exact fun hr => decide_eq_false (h.nonEmpty hr)
  have hx : (x.opt = .cmake && !executable x.value) = false := by
    rw [Bool.and_eq_false_imp]
    intro hc
    rw [h.executable (of_decide_eq_true hc)]
    rfl
  simp only [Reading.checkValue, he, h.accepted, hx, Bool.not_true, Bool.false_eq_true, if_false]

/-! ## Reading them -/

/-- An option that may still be given is accepted with its value. -/
theorem Valid.accept (h : x.Valid executable)
    (hr : x.opt.repeatable = false → r.has x.opt = false) :
    Reading.accept executable r x.opt x.value? = .ok { r with given := r.given ++ [x] } := by
  have hmissing : (x.opt.takesValue && x.value?.isNone) = false := by
    cases ht : x.opt.takesValue <;> simp [value?, ht]
  have hrepeated : (!x.opt.repeatable && r.has x.opt) = false := by
    rw [Bool.and_eq_false_imp]
    exact fun hn => hr (by simpa using hn)
  have hvalue : x.value?.getD "" = x.value := by
    cases ht : x.opt.takesValue with
    | true => simp [value?, ht]
    | false => simp [value?, ht, h.flag ht]
  rw [Reading.accept, if_neg h.notHelp]
  simp only [hmissing, hrepeated, hvalue, h.checkValue, Bool.false_eq_true, if_false]
  split <;> rfl

/-- Where no option is pending a token is read to its end. -/
theorem Valid.step_token (h : x.Valid executable) {done : List Occurrence}
    (hr : x.opt.repeatable = false → Reading.has { given := done } x.opt = false) :
    Reading.step executable { given := done } x.token = .ok { given := done ++ [x] } := by
  have hmissing : (x.opt.takesValue && x.value?.isNone) = false := by
    cases ht : x.opt.takesValue <;> simp [value?, ht]
  have htake : Reading.take executable { given := done } x.opt x.value? =
      .ok { given := done ++ [x] } := by
    simp only [Reading.take, Reading.settle, bind, Except.bind, hmissing, Bool.false_eq_true,
      if_false]
    exact h.accept hr
  rcases h.word with ⟨name, ho, hw⟩ | ⟨letter, attached, ho, hw, ht, -, -, ha⟩
  · simp only [Reading.step, Reading.awaiting, hw, Reading.step.read, ho, Bool.false_eq_true,
      if_false]
    split
    · next v ht hv =>
      rw [value?, ht] at hv
      cases hv
    · exact htake
  · have hv : x.value? = some x.value := by rw [value?, if_pos ht]
    simp only [Reading.step, Reading.awaiting, hw, Reading.step.read, ho, ht, ha, if_true,
      Bool.false_eq_true, if_false]
    rw [← hv]
    exact htake

end Occurrence

namespace Reading

variable {executable : String → Bool} {xs : List Occurrence}

/-- No option is given twice that may stand once only. -/
def Once (given : List Occurrence) : Prop :=
  ∀ o : Opt, o.repeatable = false → (given.filter fun x => x.opt == o).length ≤ 1

theorem Once.has_eq_false {done : List Occurrence} {x : Occurrence} {xs : List Occurrence}
    (h : Once (done ++ x :: xs)) (hr : x.opt.repeatable = false) :
    Reading.has { given := done } x.opt = false := by
  have hle := h x.opt hr
  have hx : (x.opt == x.opt) = true := beq_self_eq_true x.opt
  rw [List.filter_append, List.filter_cons, if_pos hx, List.length_append, List.length_cons] at hle
  have hdone : done.filter (fun y => y.opt == x.opt) = [] := List.length_eq_zero_iff.1 (by omega)
  apply Bool.eq_false_iff.2
  intro hhas
  obtain ⟨y, hy, hopt⟩ := List.any_eq_true.1 hhas
  exact List.filter_eq_nil_iff.1 hdone y hy hopt

/-- Every token of a list of options adds its option to what has been read. -/
theorem foldlM_step_tokens (hv : ∀ x ∈ xs, x.Valid executable) (done : List Occurrence)
    (ho : Once (done ++ xs)) :
    (xs.map Occurrence.token).foldlM (step executable) { given := done } =
      .ok { given := done ++ xs } := by
  induction xs generalizing done with
  | nil =>
    rw [List.append_nil]
    rfl
  | cons x xs ih =>
    have hstep := (hv x List.mem_cons_self).step_token ho.has_eq_false
    rw [List.map_cons, List.foldlM_cons, hstep]
    -- What is done grows by `x`, and the whole list stays what it is.
    have hdone : done ++ x :: xs = (done ++ [x]) ++ xs := List.append_cons done x xs
    rw [hdone] at ho ⊢
    exact ih (fun y hy => hv y (List.mem_cons_of_mem x hy)) (done ++ [x]) ho

/-- A list of options is read as it is from one token for each. -/
theorem run_tokens (hv : ∀ x ∈ xs, x.Valid executable) (ho : Once xs) :
    run executable (xs.map Occurrence.token) = .ok { given := xs } := by
  rw [run]
  have hfold := foldlM_step_tokens hv [] ho
  rw [List.nil_append] at hfold
  rw [hfold]
  rfl

end Reading

end LintHooks
