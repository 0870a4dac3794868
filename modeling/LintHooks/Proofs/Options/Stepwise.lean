import LintHooks.Proofs.Basic
import LintHooks.Proofs.Options.Acceptance
set_option autoImplicit false

/-!
# Options: accepted one by one

Tokens that are read without an error are options one after the other, each accepted on its own,
perhaps with a separator at the end (`Accepts`).  That reading is one option behind does not show
as long as nothing is wrong.

The main result is `run_eq_ok_iff`.  In one direction (`Idle.accepts`) options are taken off the
tokens as `mentions` finds them, and at each token it is known what a reading that does not fail
must have seen (`Idle.step_unnamed`, `step_value_or_separator`); in the other direction
(`Accepts.read`) the induction is on what is accepted.  What is given in the end is what the tokens
mention (`Accepts.given`).
-/

namespace LintHooks

/-! ## Tokens that are accepted -/

namespace Reading

/-- Tokens give options that are accepted one by one; nothing stands behind a separator. -/
inductive Accepts (executable : String → Bool) : Reading → List String → Reading → Prop where
  | done {r : Reading} : Accepts executable r [] r
  | separator {r : Reading} : Accepts executable r ["--"] { r with ended := true }
  | whole {r r₁ r' : Reading} {token : String} {o : Opt} {own : Option String}
    {rest : List String} : Opt.named? token = some (o, own) → own.isSome = o.takesValue →
    accept executable r o own = .ok r₁ → Accepts executable r₁ rest r' →
    Accepts executable r (token :: rest) r'
  | pair {r r₁ r' : Reading} {token v : String} {o : Opt} {rest : List String} :
    Opt.named? token = some (o, none) → o.takesValue = true →
    (o.takesHyphen = true ∨ Word.ofToken v = .plain) →
    accept executable r o (some v) = .ok r₁ → Accepts executable r₁ rest r' →
    Accepts executable r (token :: v :: rest) r'

variable {executable : String → Bool} {r r₀ r' : Reading} {o : Opt} {value : Option String}
  {token v : String} {tokens rest : List String}

theorem accept_ended (b : Bool) :
    accept executable { r with ended := b } o value =
      (accept executable r o value).map fun r => { r with ended := b } := by
  have hhas : has { r with ended := b } o = r.has o := rfl
  rw [accept, accept, hhas]
  split
  · rfl
  split
  · rfl
  split
  · rfl
  · cases o.takesValue with
    | false => rfl
    | true => cases checkValue executable o (value.getD "") <;> rfl

/-- A separator does not matter to the value that has still to be looked at. -/
theorem settle_ended (b : Bool) :
    settle executable { r with ended := b } =
      (settle executable r).map fun r => { r with ended := b } := by
  obtain ⟨given, pending, ended⟩ := r
  match pending with
  | none => rfl
  | some (o, value) => exact accept_ended (r := { given, ended }) (o := o) b

theorem foldlM_of_ended (he : r.ended = true)
    (h : tokens.foldlM (step executable) r = .ok r') : tokens = [] ∧ r' = r := by
  cases tokens with
  | nil =>
    cases h
    exact ⟨rfl, rfl⟩
  | cons token rest =>
    rw [List.foldlM_cons, step, he] at h
    cases h

/-- Nothing can be read behind the separator. -/
theorem read_behind (h : tokens.foldlM (step executable) { r with ended := true } >>=
    settle executable = .ok r') :
    tokens = [] ∧ ∃ r₀, settle executable r = .ok r₀ ∧ r' = { r₀ with ended := true } := by
  obtain ⟨r₁, hfold, h⟩ := bind_eq_ok_iff.1 h
  obtain ⟨htokens, rfl⟩ := foldlM_of_ended rfl hfold
  rw [settle_ended] at h
  obtain ⟨r₀, hs, rfl⟩ := map_eq_ok_iff.1 h
  exact ⟨htokens, r₀, hs, rfl⟩

/-- Between two options a token that names none must be the separator. -/
theorem Idle.step_unnamed (hi : Idle r) (hn : Opt.named? token = none)
    (h : step executable r token = .ok r') : token = "--" ∧ r' = { r with ended := true } := by
  rw [Opt.named?] at hn
  rw [step, hi.ended, hi.awaiting] at h
  cases hw : Word.ofToken token with
  | separator =>
    rw [hw] at h
    cases h
    exact ⟨Word.ofToken_eq_separator_iff.1 hw, rfl⟩
  | plain =>
    rw [hw] at h
    cases h
  | long name value =>
    rw [hw] at h hn
    have ho : Opt.ofLong? name = none := Option.map_eq_none_iff.1 hn
    simp [step.read, ho] at h
  | short letter attached =>
    rw [hw] at h hn
    have ho : Opt.ofShort? letter = none := Option.map_eq_none_iff.1 hn
    simp [step.read, ho] at h

theorem settle_waiting (hp : r.pending = some (o, none)) (ht : o.takesValue = true) :
    ∃ e, settle executable r = .error e := by
  rw [settle, hp]
  dsimp only
  rw [accept, ht]
  split
  · exact ⟨_, rfl⟩
  · exact ⟨_, rfl⟩

/-- An option that waits for its value lets only the separator pass among the tokens that look like
options. -/
theorem step_unfit (he : r.ended = false) (hp : r.pending = some (o, none))
    (ht : o.takesValue = true) (hh : o.takesHyphen = false) (hv : Word.ofToken v ≠ .plain)
    (h : step executable r v = .ok r') : v = "--" ∧ r' = { r with ended := true } := by
  obtain ⟨e, hsettle⟩ : ∃ e, settle executable r = .error e := settle_waiting hp ht
  have htake (o' : Opt) (w : Option String) : take executable r o' w = .error e := by
    rw [take, hsettle]
    rfl
  have hawaiting : r.awaiting = some o := by rw [awaiting, hp]
  rw [step, he, hawaiting] at h
  cases hw : Word.ofToken v with
  | plain => exact absurd hw hv
  | separator =>
    simp only [hh, hw, step.read, Bool.false_eq_true, if_false] at h
    cases h
    exact ⟨Word.ofToken_eq_separator_iff.1 hw, rfl⟩
  | long name value =>
    simp only [hh, hw, step.read, Bool.false_eq_true, if_false] at h
    cases ho : Opt.ofLong? name with
    | none =>
      rw [ho] at h
      cases h
    | some o' =>
      simp only [ho, htake] at h
      split at h <;> cases h
  | short letter attached =>
    simp only [hh, hw, step.read, Bool.false_eq_true, if_false] at h
    cases ho : Opt.ofShort? letter with
    | none =>
      rw [ho] at h
      cases h
    | some o' =>
      simp only [ho, htake] at h
      cases h

/-- What comes behind an option that waits for its value is the value or the separator. -/
theorem step_value_or_separator (he : r.ended = false) (ht : o.takesValue = true)
    (h : step executable { r with pending := some (o, none) } v = .ok r') :
    (o.takesHyphen = true ∨ Word.ofToken v = .plain) ∧ r' = { r with pending := some (o, some v) } ∨
      v = "--" ∧ r' = { r with pending := some (o, none), ended := true } := by
  by_cases hv : o.takesHyphen = true ∨ Word.ofToken v = .plain
  · rw [step_value he hv] at h
    cases h
    exact .inl ⟨hv, rfl⟩
  · obtain ⟨hh, hw⟩ := not_or.1 hv
    exact .inr (step_unfit (r := { r with pending := some (o, none) }) he rfl ht
      (Bool.eq_false_iff.2 hh) hw h)

/-- Tokens that are read to the end give options that are accepted one by one. -/
theorem Idle.accepts (hi : Idle r)
    (h : tokens.foldlM (step executable) r >>= settle executable = .ok r') :
    ∃ r₀, settle executable r = .ok r₀ ∧ Accepts executable r₀ tokens r' := by
  -- Options are taken off as `mentions` finds them, one token or two at a time.
  induction tokens using mentions.induct generalizing r with
  | case1 =>
    rw [List.foldlM_nil, pure_bind] at h
    exact ⟨r', h, .done⟩
  | case2 token rest hn _ =>
    rw [List.foldlM_cons, bind_assoc] at h
    obtain ⟨r₁, hstep, h⟩ := bind_eq_ok_iff.1 h
    obtain ⟨rfl, rfl⟩ := hi.step_unnamed hn hstep
    obtain ⟨rfl, r₀, hs, rfl⟩ := read_behind h
    exact ⟨r₀, hs, .separator⟩
  | case3 token o own hn hneeds =>
    obtain ⟨ht, hown⟩ := Bool.and_eq_true_iff.1 hneeds
    obtain rfl := Option.isNone_iff_eq_none.1 hown
    rw [List.foldlM_cons, hi.step_waiting hn ht, bind_assoc, bind_assoc] at h
    obtain ⟨r₀, -, h⟩ := bind_eq_ok_iff.1 h
    obtain ⟨e, he⟩ : ∃ e, settle executable { r₀ with pending := some (o, none) } = .error e :=
      settle_waiting rfl ht
    change settle executable { r₀ with pending := some (o, none) } = .ok r' at h
    rw [he] at h
    cases h
  | case4 token o own hn hneeds v more ih =>
    obtain ⟨ht, hown⟩ := Bool.and_eq_true_iff.1 hneeds
    obtain rfl := Option.isNone_iff_eq_none.1 hown
    rw [List.foldlM_cons, hi.step_waiting hn ht, bind_assoc, bind_assoc] at h
    obtain ⟨r₀, hs, h⟩ := bind_eq_ok_iff.1 h
    obtain ⟨hended, hpending⟩ := hi.settled hs
    change (v :: more).foldlM (step executable) { r₀ with pending := some (o, none) } >>= _ = _ at h
    rw [List.foldlM_cons, bind_assoc] at h
    obtain ⟨r₁, hstep, h⟩ := bind_eq_ok_iff.1 h
    rcases step_value_or_separator hended ht hstep with ⟨hv, rfl⟩ | ⟨rfl, rfl⟩
    · have hidle : Idle { r₀ with pending := some (o, some v) } := ⟨hended, rfl⟩
      obtain ⟨r₁, ha, hrest⟩ := ih hidle h
      rw [settle_of_waiting hpending] at ha
      exact ⟨r₀, hs, .pair hn ht hv ha hrest⟩
    · obtain ⟨-, r₂, hs₂, -⟩ := read_behind (r := { r₀ with pending := some (o, none) }) h
      obtain ⟨e, he⟩ : ∃ e, settle executable { r₀ with pending := some (o, none) } = .error e :=
        settle_waiting rfl ht
      rw [he] at hs₂
      cases hs₂
  | case5 token rest o own hn hneeds ih =>
    have hvalue : (o.takesValue && own.isNone) = false := Bool.eq_false_iff.2 hneeds
    rw [List.foldlM_cons, bind_assoc] at h
    by_cases hflag : o.takesValue = false ∧ own.isSome = true
    · rw [hi.step_named hn, if_pos hflag] at h
      cases h
    · rw [hi.step_whole hn hvalue hflag, bind_assoc] at h
      obtain ⟨r₀, hs, h⟩ := bind_eq_ok_iff.1 h
      obtain ⟨r₁, ha, h⟩ := bind_eq_ok_iff.1 h
      obtain ⟨hended, hpending⟩ := hi.settled hs
      obtain ⟨hended₁, hpending₁⟩ := accept_keeps ha
      have hidle : Idle r₁ := .of_pending (hended₁.trans hended) (hpending₁.trans hpending)
      obtain ⟨r₂, hs₂, hrest⟩ := ih hidle h
      rw [settle_of_pending (hpending₁.trans hpending)] at hs₂
      cases hs₂
      have hshape : own.isSome = o.takesValue := by
        cases own <;> cases ht : o.takesValue <;> simp_all
      exact ⟨r₀, hs, .whole hn hshape ha hrest⟩

/-- The other way round, whatever is accepted one by one is read to the end. -/
theorem Accepts.read (h : Accepts executable r₀ tokens r') {r : Reading} (hi : Idle r)
    (hs : settle executable r = .ok r₀) :
    tokens.foldlM (step executable) r >>= settle executable = .ok r' := by
  induction h generalizing r with
  | done =>
    rw [List.foldlM_nil, pure_bind]
    exact hs
  | separator =>
    have hstep : step executable r "--" = .ok { r with ended := true } := by
      rw [step, hi.ended, hi.awaiting]
      rfl
    rw [List.foldlM_cons, hstep]
    change settle executable { r with ended := true } = _
    rw [settle_ended, hs]
    rfl
  | @whole r₀ r₁ r' token o own rest hn hshape ha _ ih =>
    have hvalue : (o.takesValue && own.isNone) = false := by
      rw [← hshape]
      cases own <;> rfl
    have hflag : ¬ (o.takesValue = false ∧ own.isSome = true) := by
      rintro ⟨hf, hown⟩
      rw [hshape, hf] at hown
      cases hown
    obtain ⟨hended, hpending⟩ := hi.settled hs
    obtain ⟨hended₁, hpending₁⟩ := accept_keeps ha
    have hpending₁ : r₁.pending = none := hpending₁.trans hpending
    rw [List.foldlM_cons, hi.step_whole hn hvalue hflag, hs]
    change (accept executable r₀ o own >>= _) >>= _ = _
    rw [ha]
    exact ih (.of_pending (hended₁.trans hended) hpending₁) (settle_of_pending hpending₁)
  | @pair r₀ r₁ r' token v o rest hn ht hv ha _ ih =>
    obtain ⟨hended, hpending⟩ := hi.settled hs
    have hstep : step executable { r₀ with pending := some (o, none) } v =
        .ok { r₀ with pending := some (o, some v) } := step_value hended hv
    rw [List.foldlM_cons, hi.step_waiting hn ht, hs]
    change (v :: rest).foldlM (step executable) { r₀ with pending := some (o, none) } >>= _ = _
    rw [List.foldlM_cons, hstep]
    exact ih ⟨hended, rfl⟩ ((settle_of_waiting hpending).trans ha)

theorem run_eq_ok_iff : run executable tokens = .ok r' ↔ Accepts executable {} tokens r' := by
  have hidle : Idle {} := ⟨rfl, rfl⟩
  constructor
  · intro h
    obtain ⟨r₀, hs, ha⟩ := hidle.accepts h
    cases hs
    exact ha
  · intro h
    exact h.read hidle rfl

/-- What is given in the end is what the tokens mention. -/
theorem Accepts.given (h : Accepts executable r tokens r') :
    r'.given = r.given ++ (mentions tokens).map Mention.occurrence := by
  induction h with
  | done => rw [mentions, List.map_nil, List.append_nil]
  | separator =>
    have hn : mentions ["--"] = [] := by decide
    rw [hn, List.map_nil, List.append_nil]
  | @whole r r₁ r' token o own rest hn hshape ha _ ih =>
    have hvalue : (o.takesValue && own.isNone) = false := by
      rw [← hshape]
      cases own <;> rfl
    have hown : Mention.occurrence ⟨token, o, own, none⟩ = ⟨o, own.getD ""⟩ := by cases own <;> rfl
    obtain ⟨-, -, -, rfl⟩ := accept_ok ha
    rw [ih, Invocation.mentions_whole hn hvalue, List.map_cons, hown, List.append_assoc]
    rfl
  | pair hn ht _ ha _ ih =>
    obtain ⟨-, -, -, rfl⟩ := accept_ok ha
    rw [ih, Invocation.mentions_pair hn ht, List.map_cons, List.append_assoc]
    rfl

end Reading

end LintHooks
