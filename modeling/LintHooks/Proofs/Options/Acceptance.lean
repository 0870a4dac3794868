import LintHooks.Proofs.Options.Grammar
set_option autoImplicit false

/-!
# Options: reading what is mentioned

Reading tokens that spell options accepts these options one after the other.  It is always one
option behind: a value is looked at when the next option has been read.  So of two faults the
later one may be noticed first, and what a reading shares with accepting the options one by one is
whether it fails, and what it gives if it does not (`Ends`).  Its errors are of a few kinds only.

The main result is `ends_read`, by induction on what the tokens spell.  Between two options a
reading is `Ready`: nothing is wrong with it, and one value may still have to be looked at.  Each
way to spell an option has its lemma on what reading does with the tokens (`Idle.step_whole`,
`Idle.step_waiting`, `step_value`), and the option that was pending is accepted on the way
(`Ready.ends_settle`).  What acceptance itself can say is `ends_accept`, and what it leaves is
`accept_ok`.
-/

namespace LintHooks

/-! ## Reading accepts options -/

/-- What reading options that were sorted out can complain about. -/
inductive OptionError.Expected : OptionError → Prop where
  | help : Expected .help
  | repeated (o : Opt) : Expected (.repeated o)
  | missingValue (o : Opt) : o.choices = [] → Expected (.missingValue o)
  | unexpectedValue (o : Opt) (v : String) (others : Bool) : Expected (.unexpectedValue o v others)
  | notExecutable (path : String) : Expected (.notExecutable path)

namespace Reading

/-- A reading ends with what something else gives, and with an expected error where that gives
nothing. -/
inductive Ends : Except OptionError Reading → Option Reading → Prop where
  | ok (r : Reading) : Ends (.ok r) (some r)
  | error {e : OptionError} : e.Expected → Ends (.error e) none

variable {executable : String → Bool} {r r' : Reading} {o : Opt} {value : Option String}
  {tokens : List String} {ms : List Mention} {m : Mention}

theorem Ends.bind {x : Except OptionError Reading} {y : Option Reading}
    {f : Reading → Except OptionError Reading} {g : Reading → Option Reading} (h : Ends x y)
    (hf : ∀ r, x = .ok r → Ends (f r) (g r)) : Ends (x >>= f) (y.bind g) := by
  cases h with
  | ok r => exact hf r rfl
  | error he => exact .error he

/-- A reading whose errors are all expected ends with what is left of it without them. -/
theorem ends_toOption {x : Except OptionError Reading} (h : ∀ e, x = .error e → e.Expected) :
    Ends x x.toOption := by
  cases x with
  | ok r => exact .ok r
  | error e => exact .error (h e rfl)

theorem checkValue_expected {v : String} {e : OptionError} (ha : o.accepts v = true)
    (h : checkValue executable o v = .error e) : e.Expected := by
  rw [checkValue] at h
  split at h
  · next hr =>
    cases h
    have table : ∀ o ∈ Opt.all, o.refusesEmpty = true → o.choices = [] := by decide
    exact .missingValue o (table o o.mem_all (Bool.and_eq_true_iff.1 hr).1)
  · rw [ha] at h
    split at h
    · next hn => cases hn
    · split at h
      · cases h
        exact .notExecutable v
      · cases h

/-- An option whose value is among its choices, or that has none and lacks its value. -/
def Fits (o : Opt) (value : Option String) : Prop :=
  (∀ v, value = some v → o.accepts v = true) ∧ (value = none → o.takesValue = true → o.choices = [])

theorem ends_accept (hv : Fits o value) :
    Ends (accept executable r o value) (accept executable r o value).toOption := by
  apply ends_toOption
  intro e h
  rw [accept] at h
  split at h
  · cases h
    exact .help
  split at h
  · next hmissing =>
    cases h
    obtain ⟨ht, hn⟩ := Bool.and_eq_true_iff.1 hmissing
    exact .missingValue o (hv.2 (Option.isNone_iff_eq_none.1 hn) ht)
  split at h
  · cases h
    exact .repeated o
  · next hmissing _ =>
    cases ht : o.takesValue with
    | false =>
      rw [ht] at h
      cases h
    | true =>
      rw [ht] at h hmissing
      cases value with
      | none => exact absurd rfl hmissing
      | some v =>
        rw [if_pos rfl, Option.getD_some] at h
        cases hc : checkValue executable o v with
        | error e' =>
          rw [hc] at h
          cases h
          exact checkValue_expected (hv.1 v rfl) hc
        | ok u =>
          rw [hc] at h
          cases h

theorem checkValue_ok {v : String} (h : checkValue executable o v = .ok ()) :
    (o.refusesEmpty = true → v ≠ "") ∧ o.accepts v = true ∧
      (o = .cmake → executable v = true) := by
  rw [checkValue] at h
  split at h
  · cases h
  split at h
  · cases h
  split at h
  · cases h
  · next hempty hchoice hrun =>
    exact ⟨by simpa using hempty, by simpa using hchoice, by simpa using hrun⟩

/-- An option that is accepted is in order, and it is added to what was given. -/
theorem accept_ok (h : accept executable r o value = .ok r') :
    o ≠ .help ∧ (o.takesValue = true → ∃ v, value = some v ∧ checkValue executable o v = .ok ()) ∧
      (o.repeatable = false → r.has o = false) ∧
      r' = { r with given := r.given ++ [⟨o, value.getD ""⟩] } := by
  rw [accept] at h
  split at h
  · cases h
  split at h
  · cases h
  split at h
  · cases h
  · next hhelp hmissing hrepeated =>
    have honce : o.repeatable = false → r.has o = false := by simpa using hrepeated
    cases ht : o.takesValue with
    | false =>
      rw [ht] at h
      cases h
      exact ⟨hhelp, fun hf => absurd hf Bool.false_ne_true, honce, rfl⟩
    | true =>
      rw [ht] at h hmissing
      cases value with
      | none => exact absurd rfl hmissing
      | some v =>
        rw [if_pos rfl, Option.getD_some] at h
        cases hc : checkValue executable o v with
        | error e => rw [hc] at h; cases h
        | ok u =>
          rw [hc] at h
          cases h
          exact ⟨hhelp, fun _ => ⟨v, rfl, hc⟩, honce, rfl⟩

theorem accept_keeps (h : accept executable r o value = .ok r') :
    r'.ended = r.ended ∧ r'.pending = r.pending := by
  obtain ⟨-, -, -, rfl⟩ := accept_ok h
  exact ⟨rfl, rfl⟩

/-- Accepts an option that is mentioned, unless it is a flag with a value. -/
def acceptMention (executable : String → Bool) (r : Reading) (m : Mention) : Option Reading :=
  if m.opt.takesValue = false ∧ m.own.isSome = true then none
  else (accept executable r m.opt m.value).toOption

/-- Accepts all options that are mentioned, one after the other. -/
def acceptAll (executable : String → Bool) (r : Reading) (ms : List Mention) : Option Reading :=
  ms.foldlM (acceptMention executable) r

theorem acceptMention_of_own (h : m.own = none) :
    acceptMention executable r m = (accept executable r m.opt m.value).toOption := by
  rw [acceptMention, h]
  exact if_neg fun hflag => absurd hflag.2 Bool.false_ne_true

theorem acceptAll_nil : acceptAll executable r [] = some r := rfl

theorem acceptAll_cons :
    acceptAll executable r (m :: ms) =
      (acceptMention executable r m).bind fun r => acceptAll executable r ms := rfl

/-- A reading between two options; at most the last value has still to be looked at. -/
structure Ready (r : Reading) : Prop where
  ended : r.ended = false
  pending : ∀ o value, r.pending = some (o, value) → ∃ v, value = some v ∧ o.accepts v = true

/-- A reading that does not wait for a value. -/
structure Idle (r : Reading) : Prop where
  ended : r.ended = false
  awaiting : r.awaiting = none

theorem Idle.of_pending (he : r.ended = false) (hp : r.pending = none) : Idle r where
  ended := he
  awaiting := by rw [Reading.awaiting, hp]

theorem Ready.idle (hr : Ready r) : Idle r where
  ended := hr.ended
  awaiting := by
    rw [Reading.awaiting]
    split
    · next o hp =>
      obtain ⟨v, hv, -⟩ := hr.pending o none hp
      cases hv
    · rfl

theorem Ready.ends_settle (hr : Ready r) :
    Ends (settle executable r) (settle executable r).toOption := by
  rw [settle]
  split
  · exact .ok r
  · next o value hp =>
    obtain ⟨v, rfl, ha⟩ := hr.pending o value hp
    have hfits : Fits o (some v) :=
      ⟨fun w hw => Option.some.inj hw ▸ ha, fun hn => absurd hn (Option.some_ne_none v)⟩
    exact ends_accept hfits

/-- After the last value has been looked at nothing is pending. -/
theorem Idle.settled (hi : Idle r) (h : settle executable r = .ok r') :
    r'.ended = false ∧ r'.pending = none := by
  rw [settle] at h
  split at h
  · next hp =>
    cases h
    exact ⟨hi.ended, hp⟩
  · next o value hp =>
    obtain ⟨-, -, -, rfl⟩ := accept_ok h
    exact ⟨hi.ended, rfl⟩

theorem settle_of_pending (h : r.pending = none) : settle executable r = .ok r := by
  rw [settle, h]

/-- A value that was waited for is looked at like any other. -/
theorem settle_of_waiting (h : r.pending = none) :
    settle executable { r with pending := some (o, value) } = accept executable r o value := by
  have hr : { r with pending := none } = r := by
    cases r
    cases h
    rfl
  rw [settle]
  exact congrArg (fun r => accept executable r o value) hr

theorem Ready.of_value (he : r.ended = false) {v : String} (ha : o.accepts v = true) :
    Ready { r with pending := some (o, some v) } where
  ended := he
  pending o' value h := by
    cases h
    exact ⟨v, rfl, ha⟩

theorem Ready.of_pending (he : r.ended = false) (hp : r.pending = none) : Ready r where
  ended := he
  pending o value h := by
    rw [hp] at h
    cases h

/-- A token that names an option, read where none awaits its value. -/
theorem Idle.step_named (hi : Idle r) {token : String} {own : Option String}
    (hn : Opt.named? token = some (o, own)) :
    step executable r token =
      if o.takesValue = false ∧ own.isSome = true then
        .error (.unexpectedValue o (own.getD "") (!r.given.isEmpty))
      else take executable r o own := by
  rw [Opt.named?] at hn
  rw [step, hi.ended, hi.awaiting]
  cases hw : Word.ofToken token with
  | separator => rw [hw] at hn; cases hn
  | plain => rw [hw] at hn; cases hn
  | long name value =>
    rw [hw] at hn
    obtain ⟨o', ho, heq⟩ := Option.map_eq_some_iff.1 hn
    cases heq
    simp only [step.read, ho, Bool.false_eq_true, if_false]
    cases ht : o.takesValue with
    | false => cases own <;> rfl
    | true => rfl
  | short letter attached =>
    rw [hw] at hn
    obtain ⟨o', ho, heq⟩ := Option.map_eq_some_iff.1 hn
    cases heq
    simp only [step.read, ho, Bool.false_eq_true, if_false]
    cases ht : o.takesValue with
    | false => rfl
    | true => rfl

/-- A token with an option and all it needs accepts the option at once. -/
theorem Idle.step_whole (hi : Idle r) {token : String} {own : Option String}
    (hn : Opt.named? token = some (o, own)) (hv : (o.takesValue && own.isNone) = false)
    (hflag : ¬ (o.takesValue = false ∧ own.isSome = true)) :
    step executable r token =
      settle executable r >>= fun r => accept executable r o own := by
  rw [hi.step_named hn, if_neg hflag, take]
  refine bind_congr fun r => ?_
  rw [hv]
  rfl

/-- A token with an option that lacks its value leaves the option pending. -/
theorem Idle.step_waiting (hi : Idle r) {token : String}
    (hn : Opt.named? token = some (o, none)) (ht : o.takesValue = true) :
    step executable r token =
      settle executable r >>= fun r => .ok { r with pending := some (o, none) } := by
  have hflag : ¬ (o.takesValue = false ∧ (none : Option String).isSome = true) := by
    rintro ⟨-, h⟩
    cases h
  rw [hi.step_named hn, if_neg hflag, take]
  refine bind_congr fun r => ?_
  rw [ht]
  rfl

/-- A token that an option takes for its value. -/
theorem step_value (he : r.ended = false) {v : String}
    (hv : o.takesHyphen = true ∨ Word.ofToken v = .plain) :
    step executable { r with pending := some (o, none) } v =
      .ok { r with pending := some (o, some v) } := by
  rcases hv with hv | hv
  · simp [step, awaiting, he, hv]
  · simp [step, awaiting, he, hv]

theorem plain_of_hyphen {v : String} (h : v.toList.head? = some '-' → v = "-") :
    Word.ofToken v = .plain := by
  by_cases hv : v.toList.head? = some '-'
  · rw [h hv]
    rfl
  · unfold Word.ofToken
    split
    · next ht => exact absurd (by rw [ht]; rfl) hv
    · next ht => exact absurd (by rw [ht]; rfl) hv
    · next ht => exact absurd (by rw [ht]; rfl) hv
    · rfl

/-- Reading tokens that spell options ends as accepting the options one by one does, though the
order in which two faults are noticed may differ. -/
theorem ends_read (h : Spells tokens ms) (hg : ∀ m ∈ ms, m.Guarded) (hr : Ready r) :
    Ends (tokens.foldlM (step executable) r >>= settle executable)
      ((settle executable r).toOption.bind fun r => acceptAll executable r ms) := by
  induction h generalizing r with
  | nil =>
    simp only [acceptAll_nil, Option.bind_fun_some]
    rw [List.foldlM_nil, pure_bind]
    exact hr.ends_settle
  | @whole token o own rest ms hn hv ha _ ih =>
    have hrest := fun m hm => hg m (List.mem_cons_of_mem _ hm)
    by_cases hflag : o.takesValue = false ∧ own.isSome = true
    -- The value of a flag is noticed before the pending option is looked at.
    · have hnone : ∀ r, acceptAll executable r (⟨token, o, own, none⟩ :: ms) = none := by
        intro r
        rw [acceptAll_cons, acceptMention, if_pos hflag]
        rfl
      simp only [hnone, Option.bind_fun_none]
      rw [List.foldlM_cons, hr.idle.step_named hn, if_pos hflag]
      exact .error (.unexpectedValue _ _ _)
    · have hvalue : Mention.value ⟨token, o, own, none⟩ = own := by cases own <;> rfl
      have hfits : Fits o own := by
        refine ⟨ha, fun hown ht => ?_⟩
        rw [hown, ht] at hv
        cases hv
      rw [List.foldlM_cons, hr.idle.step_whole hn hv hflag, bind_assoc, bind_assoc]
      refine hr.ends_settle.bind fun r₀ h₀ => ?_
      obtain ⟨hended, hpending⟩ := hr.idle.settled h₀
      rw [acceptAll_cons, acceptMention, if_neg hflag, hvalue]
      refine (ends_accept hfits).bind fun r₁ h₁ => ?_
      obtain ⟨hended₁, hpending₁⟩ := accept_keeps h₁
      have hnext := ih hrest (.of_pending (hended₁.trans hended) (hpending₁.trans hpending))
      rw [settle_of_pending (hpending₁.trans hpending)] at hnext
      exact hnext
  | @pair token v o rest ms hn ht ha _ ih =>
    have hrest := fun m hm => hg m (List.mem_cons_of_mem _ hm)
    have hguard : o.takesHyphen = true ∨ Word.ofToken v = .plain := by
      cases hh : o.takesHyphen with
      | true => exact .inl rfl
      | false => exact .inr (plain_of_hyphen (hg _ List.mem_cons_self hh v rfl))
    rw [List.foldlM_cons, hr.idle.step_waiting hn ht, bind_assoc, bind_assoc]
    refine hr.ends_settle.bind fun r₀ h₀ => ?_
    obtain ⟨hended, hpending⟩ := hr.idle.settled h₀
    have hstep : step executable { r₀ with pending := some (o, none) } v =
        .ok { r₀ with pending := some (o, some v) } := step_value hended hguard
    have hnext := ih hrest (.of_value hended ha)
    rw [settle_of_waiting hpending] at hnext
    change Ends ((v :: rest).foldlM (step executable) { r₀ with pending := some (o, none) } >>= _) _
    rw [List.foldlM_cons, hstep, acceptAll_cons, acceptMention_of_own rfl]
    exact hnext
  | @dangling token name o hn ht hc _ =>
    rw [List.foldlM_cons, hr.idle.step_waiting hn ht, bind_assoc, bind_assoc]
    refine hr.ends_settle.bind fun r₀ h₀ => ?_
    obtain ⟨-, hpending⟩ := hr.idle.settled h₀
    change Ends (settle executable { r₀ with pending := some (o, none) }) _
    rw [settle_of_waiting hpending, acceptAll_cons, acceptMention_of_own rfl]
    simp only [acceptAll_nil, Option.bind_fun_some]
    exact ends_accept ⟨nofun, fun _ _ => hc⟩

end Reading

end LintHooks
