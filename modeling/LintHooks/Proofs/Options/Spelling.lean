import LintHooks.Proofs.Options.Stepwise
set_option autoImplicit false

/-!
# Options: spellings of an option

An option and its value are written as one token or as two, and sorting and reading them each go
another way for each spelling.  Wherever an option stands, its spelling matters to no other token:
all of it goes to the hook, and what is behind it goes where it went.

Reading notices one difference.  The value in a token of its own is looked at one token later than
the value that stands with its option, and in between there may be a flag with a value, which is
refused at sight.  So a value that is to be refused and a flag that is to be refused are reported
the other way round.

The main result is `outcome_spelling`.  What scanning sees of a spelling is `Scanned`, one token or
two, and for the streams that is all that matters (`Scanned.sort`).  Reading the tokens behind a
spelling goes on with a value that has been looked at or with one that has not (`read_scanned`), and
`readNow_alike_readLater` compares the two.  With the reasons for which the value can be refused
(`refused_of_accept`) this gives `run_scanned`.  The difference is shown in
`outcome_spelling_differs`.
-/

namespace LintHooks

/-! ## Spellings -/

/-- The spellings of an option with its value. -/
inductive Spelling (o : Opt) (v : String) : List String → Prop where
  | named {name : String} : o.long? = some name → Spelling o v ["--" ++ name ++ "=" ++ v]
  | name {name : String} : o.long? = some name → Spelling o v ["--" ++ name, v]
  | attached {letter : Char} : o.short? = some letter → v.toList.head? ≠ some '=' →
    Spelling o v ["-" ++ String.singleton letter ++ v]
  | letter {letter : Char} : o.short? = some letter →
    Spelling o v ["-" ++ String.singleton letter, v]
  | equals {letter : Char} : o.short? = some letter → o ≠ .warning →
    Spelling o v ["-" ++ String.singleton letter ++ "=" ++ v]

/-- A value that an option may have in any spelling.  It begins with a hyphen only if the option
is for a platform. -/
structure Spellable (o : Opt) (v : String) : Prop where
  takesValue : o.takesValue = true
  nonEmpty : v ≠ ""
  accepted : o.accepts v = true
  hyphen : o.takesHyphen = false → v.toList.head? ≠ some '-'

/-- What scanning sees of a spelling: a token with the value or a token that lacks it. -/
inductive Scanned (o : Opt) (v : String) : List String → Prop where
  | one {token : String} : Opt.named? token = some (o, some v) →
    Invocation.kindOf token = .whole → Scanned o v [token]
  | two {token : String} : Opt.named? token = some (o, none) →
    (Invocation.kindOf token).takesAlong v = true → Scanned o v [token, v]

variable {o : Opt} {v : String} {s : List String}

theorem attachedValue_of_head {attached : String} (hne : attached ≠ "")
    (h : attached.toList.head? ≠ some '=') : Reading.attachedValue attached = some attached := by
  unfold Reading.attachedValue
  split
  · next ht => exact absurd (String.toList_eq_nil_iff.1 ht) hne
  · next ht => exact absurd (congrArg List.head? ht) h
  · rfl

theorem Spelling.scanned (h : Spelling o v s) (hv : Spellable o v) : Scanned o v s := by
  have long {name : String} (hl : o.long? = some name) (own : Option String) {token : String}
      (hw : Word.ofToken token = .long name own) :
      Opt.named? token = some (o, own) ∧
        Invocation.kindOf token = if own.isNone then .awaiting else .whole := by
    obtain ⟨ho, -, -⟩ := Opt.ofLong?_of_long? hl
    rw [Opt.named?, Invocation.kindOf, hw]
    simp [ho, hv.takesValue]
  have short {letter : Char} (hs : o.short? = some letter) {attached : String} {token : String}
      (hw : Word.ofToken token = .short letter attached) :
      Opt.named? token = some (o, Reading.attachedValue attached) ∧
        Invocation.kindOf token = if attached = "" then .letter o
          else if o.accepts attached then .whole else .tool := by
    obtain ⟨ho, -⟩ := Opt.ofShort?_of_short? hs
    rw [Opt.named?, Invocation.kindOf, hw]
    by_cases ha : attached = "" <;> simp [ho, hv.takesValue, ha]
  cases h with
  | named hl =>
    obtain ⟨-, heq, -⟩ := Opt.ofLong?_of_long? hl
    obtain ⟨hn, hk⟩ := long hl (some v) (Word.ofToken_named heq v)
    exact .one hn hk
  | name hl =>
    obtain ⟨-, heq, hne⟩ := Opt.ofLong?_of_long? hl
    obtain ⟨hn, hk⟩ := long hl none (Word.ofToken_name heq hne)
    exact .two hn (by rw [hk]; rfl)
  | attached hs hhead =>
    obtain ⟨-, hletter⟩ := Opt.ofShort?_of_short? hs
    obtain ⟨hn, hk⟩ := short hs (Word.ofToken_letter hletter v)
    rw [attachedValue_of_head hv.nonEmpty hhead] at hn
    rw [if_neg hv.nonEmpty, if_pos hv.accepted] at hk
    exact .one hn hk
  | letter hs =>
    obtain ⟨-, hletter⟩ := Opt.ofShort?_of_short? hs
    have hw := Word.ofToken_letter hletter ""
    rw [String.append_empty] at hw
    obtain ⟨hn, hk⟩ := short hs hw
    rw [if_pos rfl] at hk
    exact .two hn (by rw [hk]; exact hv.accepted)
  | @equals letter hs hne =>
    obtain ⟨-, hletter⟩ := Opt.ofShort?_of_short? hs
    have hw := Word.ofToken_letter hletter ("=" ++ v)
    rw [← String.append_assoc] at hw
    obtain ⟨hn, hk⟩ := short hs hw
    have hchoices : o.choices = [] := by revert hne; cases o <;> simp [Opt.choices]
    have hvalue : Reading.attachedValue ("=" ++ v) = some v := by simp [Reading.attachedValue]
    rw [hvalue] at hn
    rw [if_neg (by simp), if_pos (Opt.accepts_of_choices hchoices _)] at hk
    exact .one hn hk

/-! ## Sorting -/

namespace Invocation

/-- A beginning of a command line that sorting has done with before the next option: it holds no
separator, and its last token does not take an option along.  A letter with choices never does. -/
inductive Complete : List String → Prop where
  | nil : Complete []
  | file {token : String} {rest : List String} : kindOf token = .file → Complete rest →
    Complete (token :: rest)
  | tool {token : String} {rest : List String} : kindOf token = .tool → Complete rest →
    Complete (token :: rest)
  | refused {token : String} {o : Opt} {rest : List String} : kindOf token = .letter o →
    o.choices ≠ [] → rest.head?.any o.accepts = false → Complete rest → Complete (token :: rest)
  | whole {token : String} {rest : List String} : kindOf token = .whole → Complete rest →
    Complete (token :: rest)
  | pair {token value : String} {rest : List String} :
    (kindOf token).takesAlong value = true → Complete rest → Complete (token :: value :: rest)

/-- One sorted command line in front of another. -/
def append (i j : Invocation) : Invocation where
  hookArgs := i.hookArgs ++ j.hookArgs
  toolArgs := i.toolArgs ++ j.toolArgs
  files := i.files ++ j.files
  ddash := i.ddash ++ j.ddash

variable {pre rest : List String}

/-- What is complete is sorted by itself. -/
theorem Complete.sort_append (h : Complete pre)
    (hrest : ∀ token ∈ rest.head?, Word.ofToken token ≠ .plain) :
    sort (pre ++ rest) = (sort pre).append (sort rest) := by
  induction h with
  | nil => rfl
  | file hk _ ih =>
    rw [List.cons_append, sort_file hk, sort_file hk, ih]
    rfl
  | tool hk _ ih =>
    rw [List.cons_append, sort_tool hk, sort_tool hk, ih]
    rfl
  | @refused token o front hk hc hr _ ih =>
    have hr' : (front ++ rest).head?.any o.accepts = false := by
      cases front with
      | cons next more => exact hr
      | nil =>
        cases hhead : rest.head? with
        | none => rw [List.nil_append, hhead]; rfl
        | some next =>
          rw [List.nil_append, hhead, Option.any_some]
          exact Bool.eq_false_iff.2 fun ha => hrest next hhead (Opt.ofToken_of_accepts hc ha)
    rw [List.cons_append, sort_refused hk hr, sort_refused hk hr', ih]
    rfl
  | whole hk _ ih =>
    rw [List.cons_append, sort_whole hk, sort_whole hk, ih]
    rfl
  | pair hk _ ih =>
    rw [List.cons_append, List.cons_append, sort_pair hk, sort_pair hk, ih]
    rfl

end Invocation

open Invocation

theorem Scanned.not_plain (h : Scanned o v s) {post : List String} :
    ∀ token ∈ (s ++ post).head?, Word.ofToken token ≠ .plain := by
  have named {token : String} {own : Option String} (hn : Opt.named? token = some (o, own)) :
      Word.ofToken token ≠ .plain := by
    intro hp
    rw [Opt.named?, hp] at hn
    cases hn
  intro token ht
  cases h with
  | one hn _ => cases ht; exact named hn
  | two hn _ => cases ht; exact named hn

/-- All of a spelling goes to the hook, and the rest goes where it goes. -/
theorem Scanned.sort (h : Scanned o v s) {pre : List String} (hpre : Complete pre)
    (post : List String) :
    Invocation.sort (pre ++ s ++ post) =
      (Invocation.sort pre).append ((Invocation.sort post).forHook s) := by
  rw [List.append_assoc, hpre.sort_append h.not_plain]
  cases h with
  | one _ hk => exact congrArg _ (sort_whole hk post)
  | two _ hk => exact congrArg _ (sort_pair hk post)

/-! ## Reading -/

namespace Reading

variable {executable : String → Bool} {r r₀ r' : Reading} {tokens : List String}
  {ms : List Mention}

/-- Outcomes that callers cannot tell apart. -/
def Alike {α : Type} (x y : Except OptionError α) : Prop :=
  x.mapError OptionError.kind = y.mapError OptionError.kind

theorem Alike.bind {α β : Type} {x y : Except OptionError α} {f g : α → Except OptionError β}
    (h : Alike x y) (hfg : ∀ a, x = .ok a → Alike (f a) (g a)) : Alike (x >>= f) (y >>= g) := by
  cases x with
  | ok a =>
    cases y with
    | ok b =>
      obtain rfl : a = b := Except.ok.inj h
      exact hfg a rfl
    | error e => cases h
  | error e =>
    cases y with
    | ok b => cases h
    | error e' => exact congrArg Except.error (Except.error.inj h)

theorem Alike.refl {α : Type} (x : Except OptionError α) : Alike x x := rfl

theorem Idle.of_step (hi : Idle r) {token : String} {own : Option String}
    (hn : Opt.named? token = some (o, own)) (hneeds : (o.takesValue && own.isNone) = false)
    (h : step executable r token = .ok r') : Idle r' := by
  by_cases hflag : o.takesValue = false ∧ own.isSome = true
  · rw [hi.step_named hn, if_pos hflag] at h
    cases h
  · rw [hi.step_whole hn hneeds hflag] at h
    obtain ⟨r₀, hs, ha⟩ := bind_eq_ok_iff.1 h
    obtain ⟨hended, hpending⟩ := hi.settled hs
    obtain ⟨hended', hpending'⟩ := accept_keeps ha
    exact .of_pending (hended'.trans hended) (hpending'.trans hpending)

/-- After a complete beginning the reading is between two options, unless a separator ended it. -/
theorem ended_or_idle {pre : List String} (hpre : Complete pre) (hi : Idle r)
    (h : (Invocation.sort pre).hookArgs.foldlM (step executable) r = .ok r') :
    r'.ended = true ∨ Idle r' := by
  induction hpre generalizing r with
  | nil =>
    cases h
    exact .inr hi
  | file hk _ ih =>
    rw [sort_file hk] at h
    exact ih hi h
  | tool hk _ ih =>
    rw [sort_tool hk] at h
    exact ih hi h
  | refused hk _ hr _ ih =>
    rw [sort_refused hk hr] at h
    exact ih hi h
  | @whole token rest hk _ ih =>
    rw [sort_whole hk] at h
    change ([token] ++ _).foldlM _ _ = _ at h
    rw [List.singleton_append, List.foldlM_cons] at h
    obtain ⟨r₁, hstep, h⟩ := bind_eq_ok_iff.1 h
    have hnames := names_kindOf token
    rw [hk] at hnames
    cases hnames with
    | whole o own hn hneeds _ => exact ih (hi.of_step hn hneeds hstep) h
  | @pair token value rest hk _ ih =>
    rw [sort_pair hk] at h
    obtain ⟨o, hn, ht, -⟩ := named?_of_takesAlong hk
    change (token :: value :: _).foldlM _ _ = _ at h
    rw [List.foldlM_cons, hi.step_waiting hn ht, bind_assoc] at h
    obtain ⟨r₀, hs, h⟩ := bind_eq_ok_iff.1 h
    obtain ⟨hended, -⟩ := hi.settled hs
    change (value :: _).foldlM (step executable) { r₀ with pending := some (o, none) } = _ at h
    rw [List.foldlM_cons] at h
    obtain ⟨r₁, hstep, h⟩ := bind_eq_ok_iff.1 h
    rcases step_value_or_separator hended ht hstep with ⟨-, rfl⟩ | ⟨-, rfl⟩
    · have hidle : Idle { r₀ with pending := some (o, some value) } := ⟨hended, rfl⟩
      exact ih hidle h
    · obtain ⟨-, rfl⟩ := foldlM_of_ended rfl h
      exact .inl rfl

/-! ### One option later -/

/-- An option that waits with its value is accepted before another one is. -/
theorem take_of_waiting (hp : r.pending = none) {value : Option String} (o' : Opt)
    (own : Option String) :
    take executable { r with pending := some (o, value) } o' own =
      accept executable r o value >>= fun r => take executable r o' own := by
  rw [take, settle_of_waiting hp]
  cases ha : accept executable r o value with
  | error e => rfl
  | ok r₁ =>
    have hp₁ : r₁.pending = none := (accept_keeps ha).2.trans hp
    change _ = take executable r₁ o' own
    rw [take, settle_of_pending hp₁]

/-- A flag with a value, which is refused at sight. -/
def BareFlag (m : Mention) : Prop := m.opt.takesValue = false ∧ m.own.isSome = true

/-- What spells options begins with a token that names the first one. -/
theorem first_named (h : Spells tokens ms) :
    tokens = [] ∨ ∃ token rest m, tokens = token :: rest ∧ ms.head? = some m ∧
      Opt.named? token = some (m.opt, m.own) := by
  cases h with
  | nil => exact .inl rfl
  | whole hn _ _ _ => exact .inr ⟨_, _, _, rfl, rfl, hn⟩
  | pair hn _ _ _ => exact .inr ⟨_, _, _, rfl, rfl, hn⟩
  | dangling hn _ _ _ => exact .inr ⟨_, _, _, rfl, rfl, hn⟩

/-- Reading on with a value that is looked at at once. -/
def readNow (executable : String → Bool) (o : Opt) (v : String) (tokens : List String)
    (r : Reading) : Except OptionError Reading :=
  accept executable r o (some v) >>= fun r =>
    tokens.foldlM (step executable) r >>= settle executable

/-- Reading on with a value that has still to be looked at. -/
def readLater (executable : String → Bool) (o : Opt) (v : String) (tokens : List String)
    (r : Reading) : Except OptionError Reading :=
  tokens.foldlM (step executable) { r with pending := some (o, some v) } >>= settle executable

/-- It makes no difference whether a value is looked at at once or with the next option, unless
the value is refused and the next option is a flag with a value. -/
theorem readNow_alike_readLater (he : r.ended = false) (hp : r.pending = none)
    (hs : Spells tokens ms) (o : Opt) (v : String) :
    Alike (readNow executable o v tokens r) (readLater executable o v tokens r) ∨
    (∃ m, ms.head? = some m ∧ BareFlag m) ∧
      (∃ e, accept executable r o (some v) = .error e) ∧
      ∃ e, readLater executable o v tokens r = .error e ∧ e.kind = .tooManyValues := by
  rw [readNow, readLater]
  have hidle : Idle { r with pending := some (o, some v) } := ⟨he, rfl⟩
  have hnext {r₁ : Reading} (ha : accept executable r o (some v) = .ok r₁) : Idle r₁ := by
    obtain ⟨hended₁, hpending₁⟩ := accept_keeps ha
    exact .of_pending (hended₁.trans he) (hpending₁.trans hp)
  rcases first_named hs with rfl | ⟨token, rest, m, rfl, hhead, hn⟩
  · left
    rw [List.foldlM_nil, pure_bind, settle_of_waiting hp]
    cases ha : accept executable r o (some v) with
    | error e => exact .refl _
    | ok r₁ =>
      change Alike (settle executable r₁) _
      rw [settle_of_pending ((accept_keeps ha).2.trans hp)]
      exact .refl _
  · by_cases hflag : m.opt.takesValue = false ∧ m.own.isSome = true
    · have hstep {r : Reading} (hi : Idle r) : ∃ others, step executable r token =
          .error (.unexpectedValue m.opt (m.own.getD "") others) := by
        rw [hi.step_named hn, if_pos hflag]
        exact ⟨_, rfl⟩
      obtain ⟨others, hlate⟩ := hstep hidle
      rw [List.foldlM_cons, hlate]
      cases ha : accept executable r o (some v) with
      | error e => exact .inr ⟨⟨m, hhead, hflag⟩, ⟨e, rfl⟩, _, rfl, rfl⟩
      | ok r₁ =>
        obtain ⟨others₁, hsoon⟩ := hstep (hnext ha)
        left
        change Alike ((token :: rest).foldlM (step executable) r₁ >>= _) _
        rw [List.foldlM_cons, hsoon]
        rfl
    · left
      rw [List.foldlM_cons, hidle.step_named hn, if_neg hflag, take_of_waiting hp, bind_assoc,
        bind_assoc]
      refine Alike.bind (.refl _) fun r₁ ha => ?_
      rw [List.foldlM_cons, (hnext ha).step_named hn, if_neg hflag, bind_assoc]
      exact .refl _

/-- The value of a spelling in one token is looked at there and that of a spelling in two tokens
with what comes next. -/
theorem read_scanned (hi : Idle r) {s : List String} {o : Opt} {v : String} (h : Scanned o v s)
    (hv : Spellable o v) (tokens : List String) :
    (s ++ tokens).foldlM (step executable) r >>= settle executable =
      settle executable r >>=
        (if s.length = 1 then readNow executable o v tokens
        else readLater executable o v tokens) := by
  cases h with
  | one hn _ =>
    have hneeds : (o.takesValue && (some v).isNone) = false := Bool.and_false _
    have hflag : ¬ (o.takesValue = false ∧ (some v).isSome = true) := fun hf =>
      absurd (hf.1.symm.trans hv.takesValue) Bool.false_ne_true
    rw [List.singleton_append, List.foldlM_cons, hi.step_whole hn hneeds hflag, bind_assoc,
      bind_assoc]
    rfl
  | two hn _ =>
    have hplain : o.takesHyphen = true ∨ Word.ofToken v = .plain := by
      cases hh : o.takesHyphen with
      | true => exact .inl rfl
      | false => exact .inr (plain_of_hyphen fun hhead => absurd hhead (hv.hyphen hh))
    rw [List.cons_append, List.singleton_append, List.foldlM_cons,
      hi.step_waiting hn hv.takesValue, bind_assoc, bind_assoc]
    cases hs : settle executable r with
    | error e => rfl
    | ok r₀ =>
      have hstep : step executable { r₀ with pending := some (o, none) } v =
          .ok { r₀ with pending := some (o, some v) } := step_value (hi.settled hs).1 hplain
      change (v :: tokens).foldlM (step executable) { r₀ with pending := some (o, none) } >>= _ = _
      rw [List.foldlM_cons, hstep]
      rfl

/-- Behind a separator the first token of any spelling is unknown. -/
theorem foldlM_scanned_of_ended (hended : r.ended = true) {s : List String} {o : Opt} {v : String}
    (h : Scanned o v s) (tokens : List String) (executable : String → Bool) : ∃ token,
      (s ++ tokens).foldlM (step executable) r = .error (.unknown token none false) := by
  have hstep (token : String) :
      step executable r token = .error (.unknown token none false) := by rw [step, if_pos hended]
  cases h with
  | @one token _ _ =>
    rw [List.singleton_append, List.foldlM_cons, hstep]
    exact ⟨token, rfl⟩
  | @two token _ _ =>
    rw [List.cons_append, List.foldlM_cons, hstep]
    exact ⟨token, rfl⟩

/-- Why a value is refused that has been spelled, and how callers are told. -/
inductive Refused (executable : String → Bool) (before : List Mention) (o : Opt) (v : String) :
    OptionError.Kind → Prop where
  | again {m : Mention} : o.repeatable = false → m ∈ before → m.opt = o →
    Refused executable before o v .argumentConflict
  | notExecutable : o = .cmake → executable v = false → (∀ m ∈ before, m.opt ≠ o) →
    Refused executable before o v .valueValidation

theorem refused_of_accept {o : Opt} {v : String} {before : List Mention} (hv : Spellable o v)
    (hgiven : r.given = before.map Mention.occurrence) {e : OptionError}
    (h : accept executable r o (some v) = .error e) : Refused executable before o v e.kind := by
  have hhelp : o ≠ .help := by
    rintro rfl
    cases hv.takesValue
  have hhas : r.has o = true ↔ ∃ m ∈ before, m.opt = o := by
    rw [has, hgiven, List.any_map, List.any_eq_true]
    exact exists_congr fun m => and_congr_right fun _ => beq_iff_eq
  rw [accept, if_neg hhelp, hv.takesValue] at h
  simp only [Option.isNone_some, Bool.and_false, Bool.false_eq_true, if_false, if_true,
    Option.getD_some] at h
  split at h
  · next hagain =>
    cases h
    obtain ⟨hr, ho⟩ := Bool.and_eq_true_iff.1 hagain
    obtain ⟨m, hm, hopt⟩ := hhas.1 ho
    exact .again (by simpa using hr) hm hopt
  · next hagain =>
    rw [checkValue] at h
    simp only [hv.nonEmpty, hv.accepted, decide_false, Bool.and_false, Bool.not_true,
      Bool.false_eq_true, if_false] at h
    split at h
    · next hx =>
      cases h
      obtain ⟨hc, hx⟩ : o = .cmake ∧ executable v = false := by simpa using hx
      refine .notExecutable hc hx fun m hm hopt => hagain ?_
      rw [hhas.2 ⟨m, hm, hopt⟩, hc]
      rfl
    · cases h

/-- Reading the hook's part of a command line with a spelling in it comes to the same for every
spelling, or it fails in one of two ways. -/
theorem run_scanned {s₁ s₂ pre : List String} {o : Opt} {v : String} (h₁ : Scanned o v s₁)
    (h₂ : Scanned o v s₂) (hv : Spellable o v) (hpre : Complete pre) (hs : Spells tokens ms)
    (executable : String → Bool) :
    Alike (run executable ((Invocation.sort pre).hookArgs ++ s₁ ++ tokens))
      (run executable ((Invocation.sort pre).hookArgs ++ s₂ ++ tokens)) ∨
    (∃ m, ms.head? = some m ∧ BareFlag m) ∧
      ∃ k, Refused executable (mentions (Invocation.sort pre).hookArgs) o v k ∧
        ∀ s, Scanned o v s → ∃ e,
          run executable ((Invocation.sort pre).hookArgs ++ s ++ tokens) = .error e ∧
            e.kind = if s.length = 1 then k else .tooManyValues := by
  have hrun (s : List String) :
      run executable ((Invocation.sort pre).hookArgs ++ s ++ tokens) =
        (Invocation.sort pre).hookArgs.foldlM (step executable) {} >>= fun r =>
          (s ++ tokens).foldlM (step executable) r >>= settle executable := by
    rw [run, List.append_assoc, List.foldlM_append, bind_assoc]
  have hidle : Idle {} := ⟨rfl, rfl⟩
  cases hf : (Invocation.sort pre).hookArgs.foldlM (step executable) {} with
  | error e =>
    rw [hrun, hrun, hf]
    exact .inl (.refl _)
  | ok r =>
    rcases ended_or_idle hpre hidle hf with hended | hi
    · obtain ⟨token₁, hrun₁⟩ := foldlM_scanned_of_ended hended h₁ tokens executable
      obtain ⟨token₂, hrun₂⟩ := foldlM_scanned_of_ended hended h₂ tokens executable
      left
      rw [hrun, hrun, hf]
      change Alike ((s₁ ++ tokens).foldlM (step executable) r >>= _)
        ((s₂ ++ tokens).foldlM (step executable) r >>= _)
      rw [hrun₁, hrun₂]
      rfl
    · have hread {s : List String} (h : Scanned o v s) :
          run executable ((Invocation.sort pre).hookArgs ++ s ++ tokens) = settle executable r >>=
            (if s.length = 1 then readNow executable o v tokens
              else readLater executable o v tokens) := by
        rw [hrun, hf]
        exact read_scanned hi h hv tokens
      cases hsettle : settle executable r with
      | error e =>
        rw [hread h₁, hread h₂, hsettle]
        exact .inl (.refl _)
      | ok r₀ =>
        obtain ⟨hended, hpending⟩ := hi.settled hsettle
        have hread {s : List String} (h : Scanned o v s) :
            run executable ((Invocation.sort pre).hookArgs ++ s ++ tokens) =
              (if s.length = 1 then readNow executable o v tokens r₀
                else readLater executable o v tokens r₀) := by
          rw [hread h, hsettle]
          split <;> rfl
        rcases readNow_alike_readLater hended hpending hs o v with
          halike | ⟨hflag, ⟨e, he⟩, e', he', hkind⟩
        · left
          rw [hread h₁, hread h₂]
          split <;> split
          exacts [.refl _, halike, halike.symm, .refl _]
        · have hbefore : run executable (Invocation.sort pre).hookArgs = .ok r₀ := by
            rw [run, hf]
            exact hsettle
          have hgiven := (run_eq_ok_iff.1 hbefore).given
          refine .inr ⟨hflag, e.kind, refused_of_accept hv hgiven he, fun s h => ?_⟩
          rw [hread h]
          split
          · exact ⟨e, by rw [readNow, he]; rfl, rfl⟩
          · exact ⟨e', he', hkind⟩

end Reading

namespace HookOptions

/-- What becomes of the hook's part of a command line; of an error only its kind counts. -/
def outcome (executable : String → Bool) (env : String → Option String) (args : List String) :
    Except OptionError.Kind HookOptions :=
  (parse executable env (Invocation.sort args).hookArgs).mapError OptionError.kind

variable {executable : String → Bool} {env : String → Option String} {pre post : List String}
  {s₁ s₂ : List String}

theorem parse_alike {tokens₁ tokens₂ : List String}
    (h : Reading.Alike (Reading.run executable tokens₁) (Reading.run executable tokens₂)) :
    Reading.Alike (parse executable env tokens₁) (parse executable env tokens₂) :=
  h.bind fun _ _ => .refl _

/-- The spelling of an option with its value matters to nothing but the order in which two faults
are noticed.  Whatever stands around the option, the tool, the files and what is behind the
separator get the same.  So does the hook, an error included, unless the spellings are of one
token and of two, the value is refused and the next option is a flag with a value: then the
spelling in one token is told of the value and the spelling in two of the flag. -/
theorem outcome_spelling (hv : Spellable o v) (h₁ : Spelling o v s₁) (h₂ : Spelling o v s₂)
    (hpre : Complete pre) (post : List String) (executable : String → Bool)
    (env : String → Option String) :
    (Invocation.sort (pre ++ s₁ ++ post)).toolArgs =
      (Invocation.sort (pre ++ s₂ ++ post)).toolArgs ∧
    (Invocation.sort (pre ++ s₁ ++ post)).files = (Invocation.sort (pre ++ s₂ ++ post)).files ∧
    (Invocation.sort (pre ++ s₁ ++ post)).ddash = (Invocation.sort (pre ++ s₂ ++ post)).ddash ∧
    (outcome executable env (pre ++ s₁ ++ post) = outcome executable env (pre ++ s₂ ++ post) ∨
      s₁.length ≠ s₂.length ∧
      (∃ m, (mentions (Invocation.sort post).hookArgs).head? = some m ∧ Reading.BareFlag m) ∧
      ∃ k, Reading.Refused executable (mentions (Invocation.sort pre).hookArgs) o v k ∧
        ∀ s, Spelling o v s → outcome executable env (pre ++ s ++ post) =
          .error (if s.length = 1 then k else .tooManyValues)) := by
  have hsort {s : List String} (h : Spelling o v s) := (h.scanned hv).sort hpre post
  have houtcome {s : List String} (h : Spelling o v s) : outcome executable env (pre ++ s ++ post) =
      (parse executable env ((Invocation.sort pre).hookArgs ++ s ++
        (Invocation.sort post).hookArgs)).mapError OptionError.kind := by
    rw [outcome, hsort h, List.append_assoc]
    rfl
  refine ⟨?_, ?_, ?_, ?_⟩
  · rw [hsort h₁, hsort h₂]
    rfl
  · rw [hsort h₁, hsort h₂]
    rfl
  · rw [hsort h₁, hsort h₂]
    rfl
  · have hspells := Invocation.spells_hookArgs post
    rcases Reading.run_scanned (h₁.scanned hv) (h₂.scanned hv) hv hpre hspells executable with
      halike | ⟨hflag, k, hk, hruns⟩
    · left
      rw [houtcome h₁, houtcome h₂]
      exact parse_alike halike
    · have hfails {s : List String} (h : Spelling o v s) :
          outcome executable env (pre ++ s ++ post) =
            .error (if s.length = 1 then k else .tooManyValues) := by
        obtain ⟨e, he, hkind⟩ := hruns s (h.scanned hv)
        rw [houtcome h, ← hkind, parse, he]
        rfl
      by_cases hlength : s₁.length = s₂.length
      · left
        rw [hfails h₁, hfails h₂, hlength]
      · exact .inr ⟨hlength, hflag, k, hk, fun _ h => hfails h⟩

/-! ### A value behind a separator that is none, and a value that is refused -/

theorem outcome_spelling_sourceDir :
    Spellable .sourceDir "src" ∧ Complete ["--linux", "--", "-W"] ∧
    outcome (fun _ => true) (fun _ => none)
        (["--linux", "--", "-W"] ++ ["-Ssrc"] ++ ["a.c", "--", "-S"]) =
      outcome (fun _ => true) (fun _ => none)
        (["--linux", "--", "-W"] ++ ["--source-dir", "src"] ++ ["a.c", "--", "-S"]) := by
  have hv : Spellable .sourceDir "src" := ⟨rfl, by decide, by decide, fun _ => by decide⟩
  have hpre : Complete ["--linux", "--", "-W"] :=
    .pair (by decide) (.refused (o := .warning) (by decide) (by decide) rfl .nil)
  have h₁ : Spelling .sourceDir "src" ["-Ssrc"] :=
    .attached (show Opt.sourceDir.short? = some 'S' from rfl)
      (show "src".toList.head? ≠ some '=' by decide)
  have h₂ : Spelling .sourceDir "src" ["--source-dir", "src"] :=
    .name (show Opt.sourceDir.long? = some "source-dir" from rfl)
  refine ⟨hv, hpre, ?_⟩
  obtain ⟨-, -, -, hsame | ⟨-, ⟨m, hm, -⟩, -⟩⟩ :=
    outcome_spelling hv h₁ h₂ hpre ["a.c", "--", "-S"] (fun _ => true) fun _ => none
  · exact hsame
  · have hnone : mentions (Invocation.sort ["a.c", "--", "-S"]).hookArgs = [] := by decide
    rw [hnone] at hm
    cases hm

/-- The error depends on the spelling: a path that cannot be run is found out by itself, or behind
a flag with a value. -/
theorem outcome_spelling_differs :
    Spelling .cmake "/x" ["--cmake=/x"] ∧ Spelling .cmake "/x" ["--cmake", "/x"] ∧
    Spellable .cmake "/x" ∧ Complete [] ∧
    outcome (fun _ => false) (fun _ => none) ([] ++ ["--cmake=/x"] ++ ["--clean=x"]) =
      .error .valueValidation ∧
    outcome (fun _ => false) (fun _ => none) ([] ++ ["--cmake", "/x"] ++ ["--clean=x"]) =
      .error .tooManyValues := by
  have hv : Spellable .cmake "/x" := ⟨rfl, by decide, by decide, fun _ => by decide⟩
  have hname : Opt.cmake.long? = some "cmake" := rfl
  exact ⟨.named hname, .name hname, hv, .nil, rfl, rfl⟩

end HookOptions

end LintHooks
