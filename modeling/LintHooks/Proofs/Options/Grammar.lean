import LintHooks.Proofs.Options.Rendering
import Mathlib.Data.List.Chain
set_option autoImplicit false

/-!
# Options: what the hook's tokens mention

Sorting a command line and reading the hook's part of it are two scanners with rules of their own
for letters, values and hyphens.  What they have in common is a grammar: the hook's tokens spell a
list of options, each named by one token that holds its value or is followed by it (`Spells`).
Sorting leaves tokens that spell the options mentioned in them, whatever it was given.

The main results are `spells_hookArgs` and, for the values that look like options,
`guarded_of_apart`.  Both are inductions along `sort_induction`.  What sorting sees in a token is
related to what reading sees in it by `names_kindOf`, and how tokens are taken off in reading is
described by the equations of `mentions` (`mentions_whole`, `mentions_pair`, `mentions_dangling`),
one for each way to spell an option.
-/

namespace LintHooks

/-! ## Options that are mentioned -/

/-- An option that stands in a command line. -/
structure Mention where
  /-- The token that names it. -/
  token : String
  opt : Opt
  /-- The value in the token itself. -/
  own : Option String
  /-- The token after it, if the option takes it for its value. -/
  next : Option String
  deriving DecidableEq, Repr, Inhabited

namespace Mention

/-- The value of an option, wherever it stands. -/
def value (m : Mention) : Option String := m.own <|> m.next

/-- What is read of an option. -/
def occurrence (m : Mention) : Occurrence := ⟨m.opt, m.value.getD ""⟩

/-- Only the options for a platform may have a value of its own token that begins with a hyphen,
unless it is a hyphen and nothing else. -/
def Guarded (m : Mention) : Prop :=
  m.opt.takesHyphen = false → ∀ v ∈ m.next, v.toList.head? = some '-' → v = "-"

instance (m : Mention) : Decidable m.Guarded :=
  inferInstanceAs (Decidable (_ → ∀ v ∈ m.next, _ → _))

end Mention

/-- The option that a token names, with the value in the token. -/
def Opt.named? (token : String) : Option (Opt × Option String) :=
  match Word.ofToken token with
  | .long name value => (ofLong? name).map fun o => (o, value)
  | .short letter attached => (ofShort? letter).map fun o =>
      (o, if o.takesValue then Reading.attachedValue attached else none)
  | _ => none

/-- The options that tokens mention. -/
def mentions : List String → List Mention
  | [] => []
  | token :: rest =>
    match Opt.named? token with
    | none => mentions rest
    | some (o, own) =>
      if o.takesValue && own.isNone then
        match rest with
        | [] => [⟨token, o, none, none⟩]
        | v :: more => ⟨token, o, none, some v⟩ :: mentions more
      else ⟨token, o, own, none⟩ :: mentions rest

/-- Tokens spell options: each option needs one token or takes the next one along, and only the
last one may lack its value, if its name is a long one. -/
inductive Spells : List String → List Mention → Prop where
  | nil : Spells [] []
  | whole {token : String} {o : Opt} {own : Option String} {rest : List String}
    {ms : List Mention} : Opt.named? token = some (o, own) →
    (o.takesValue && own.isNone) = false → (∀ v, own = some v → o.accepts v = true) →
    Spells rest ms → Spells (token :: rest) (⟨token, o, own, none⟩ :: ms)
  | pair {token v : String} {o : Opt} {rest : List String} {ms : List Mention} :
    Opt.named? token = some (o, none) → o.takesValue = true → o.accepts v = true →
    Spells rest ms → Spells (token :: v :: rest) (⟨token, o, none, some v⟩ :: ms)
  | dangling {token name : String} {o : Opt} : Opt.named? token = some (o, none) →
    o.takesValue = true → o.choices = [] → Word.ofToken token = .long name none →
    Spells [token] [⟨token, o, none, none⟩]

/-! ## Sorting leaves options -/

/-- Options with a long name take any value. -/
theorem Opt.choices_of_ofLong? {name : String} {o : Opt} (h : ofLong? name = some o) :
    o.choices = [] := by
  have table : ∀ o ∈ all, o.long? ≠ none → o.choices = [] := by decide
  have hname : o.long? = some name := by simpa using List.find?_some h
  have hlong : o.long? ≠ none := by
    rw [hname]
    exact Option.some_ne_none name
  exact table o (mem_all o) hlong

theorem Opt.accepts_of_choices {o : Opt} (h : o.choices = []) (v : String) :
    o.accepts v = true := by
  rw [accepts, h]
  rfl

/-- A value that an option accepts behind its letter has something left to accept when a leading
`=` is taken off. -/
theorem Opt.attachedValue_of_accepts {o : Opt} {attached : String} (hne : attached ≠ "")
    (ha : o.accepts attached = true) :
    ∃ v, Reading.attachedValue attached = some v ∧ o.accepts v = true := by
  by_cases hc : o.choices = []
  · obtain ⟨v, hv⟩ : ∃ v, Reading.attachedValue attached = some v := by
      unfold Reading.attachedValue
      split
      · next ht => exact absurd (String.toList_eq_nil_iff.1 ht) hne
      · exact ⟨_, rfl⟩
      · exact ⟨_, rfl⟩
    exact ⟨v, hv, Opt.accepts_of_choices hc v⟩
  · have hmem := Opt.mem_choices_of_accepts hc ha
    exact ⟨attached, (Opt.attachedValue_of_mem_choices hmem).2, ha⟩

namespace Invocation

/-- What a token of some kind names. -/
inductive Names (token : String) : Kind → Prop where
  | separator : Names token .separator
  | file : Names token .file
  | tool : Names token .tool
  | whole (o : Opt) (own : Option String) : Opt.named? token = some (o, own) →
    (o.takesValue && own.isNone) = false → (∀ v, own = some v → o.accepts v = true) →
    Names token .whole
  | awaiting (o : Opt) (name : String) : Opt.named? token = some (o, none) →
    o.takesValue = true → o.choices = [] → Word.ofToken token = .long name none →
    Names token .awaiting
  | letter (o : Opt) : Opt.named? token = some (o, none) → o.takesValue = true →
    Names token (.letter o)

theorem names_kindOf (token : String) : Names token (kindOf token) := by
  have hnamed := Opt.named?.eq_def token
  unfold kindOf
  cases hw : Word.ofToken token with
  | separator => exact .separator
  | plain => exact .file
  | long name value =>
    rw [hw] at hnamed
    dsimp only at hnamed ⊢
    cases ho : Opt.ofLong? name with
    | none => exact .tool
    | some o =>
      rw [ho] at hnamed
      have hchoices := Opt.choices_of_ofLong? ho
      dsimp only
      split
      · next hneeds =>
        obtain ⟨ht, hv⟩ := Bool.and_eq_true_iff.1 hneeds
        obtain rfl := Option.isNone_iff_eq_none.1 hv
        exact .awaiting o name hnamed ht hchoices hw
      · next hneeds =>
        exact .whole o value hnamed (Bool.eq_false_iff.2 hneeds)
          fun v _ => Opt.accepts_of_choices hchoices v
  | short letter attached =>
    rw [hw] at hnamed
    dsimp only at hnamed ⊢
    cases ho : Opt.ofShort? letter with
    | none => exact .tool
    | some o =>
      rw [ho, Option.map_some] at hnamed
      dsimp only
      cases ht : o.takesValue with
      | false =>
        rw [ht] at hnamed
        by_cases ha : attached = ""
        · rw [if_pos Bool.not_false, if_pos ha]
          exact .whole o none hnamed (by rw [ht]; rfl) nofun
        · rw [if_pos Bool.not_false, if_neg ha]
          exact .tool
      | true =>
        rw [ht] at hnamed
        by_cases ha : attached = ""
        · rw [if_neg nofun, if_neg (not_not_intro ha)]
          rw [ha] at hnamed
          exact .letter o hnamed ht
        · rw [if_neg nofun, if_pos ha]
          split
          · next haccepts =>
            obtain ⟨v, hv, hav⟩ := Opt.attachedValue_of_accepts ha haccepts
            rw [if_pos rfl, hv] at hnamed
            exact .whole o (some v) hnamed (by simp) fun w hw => Option.some.inj hw ▸ hav
          · exact .tool

theorem named?_of_takesAlong {token v : String} (h : (kindOf token).takesAlong v = true) :
    ∃ o, Opt.named? token = some (o, none) ∧ o.takesValue = true ∧ o.accepts v = true := by
  have hnames := names_kindOf token
  generalize kindOf token = kind at h hnames
  cases hnames with
  | awaiting o name hn ht hc _ => exact ⟨o, hn, ht, Opt.accepts_of_choices hc v⟩
  | letter o hn ht => exact ⟨o, hn, ht, h⟩
  | _ => cases h

theorem mentions_whole {token : String} {o : Opt} {own : Option String}
    (h : Opt.named? token = some (o, own)) (hv : (o.takesValue && own.isNone) = false)
    (rest : List String) : mentions (token :: rest) = ⟨token, o, own, none⟩ :: mentions rest := by
  rw [mentions.eq_def]
  simp [h, hv]

theorem mentions_pair {token : String} {o : Opt} (h : Opt.named? token = some (o, none))
    (ht : o.takesValue = true) (v : String) (rest : List String) :
    mentions (token :: v :: rest) = ⟨token, o, none, some v⟩ :: mentions rest := by
  rw [mentions.eq_def]
  simp [h, ht]

theorem mentions_dangling {token : String} {o : Opt} (h : Opt.named? token = some (o, none))
    (ht : o.takesValue = true) : mentions [token] = [⟨token, o, none, none⟩] := by
  rw [mentions.eq_def]
  simp [h, ht]

/-- What sorting leaves for the hook spells the options that are mentioned in it. -/
theorem spells_hookArgs (args : List String) :
    Spells (sort args).hookArgs (mentions (sort args).hookArgs) := by
  induction args using sort_induction with
  | nil => exact .nil
  | separator rest =>
    rw [sort_separator]
    exact .nil
  | file token rest hk ih =>
    rw [sort_file hk]
    exact ih
  | tool token rest hk ih =>
    rw [sort_tool hk]
    exact ih
  | refused token rest o hk hr ih =>
    rw [sort_refused hk hr]
    exact ih
  | whole token rest hk ih =>
    have hnames := names_kindOf token
    rw [hk] at hnames
    cases hnames with
    | whole o own hn hv ha =>
      rw [sort_whole hk]
      have hm := mentions_whole hn hv (sort rest).hookArgs
      exact hm.symm ▸ .whole hn hv ha ih
  | pair token v rest hk ih =>
    rw [sort_pair hk]
    obtain ⟨o, hn, ht, ha⟩ := named?_of_takesAlong hk
    have hm := mentions_pair hn ht v (sort rest).hookArgs
    exact hm.symm ▸ .pair hn ht ha ih
  | dangling token hk =>
    have hnames := names_kindOf token
    rw [hk] at hnames
    cases hnames with
    | awaiting o name hn ht hc hw =>
      rw [sort_dangling hk]
      have hm := mentions_dangling hn ht
      exact hm.symm ▸ .dangling hn ht hc hw

/-- A token that names an option without its value is not followed by what looks like another
option, if the option cannot take that for its value. -/
def Apart (token next : String) : Prop :=
  ∀ o, Opt.named? token = some (o, none) → o.takesValue = true → o.takesHyphen = false →
    next.toList.head? = some '-' → next = "-"

/-- The values that options take along are the tokens after them on the whole command line. -/
theorem guarded_of_apart {args : List String} (h : args.IsChain Apart) :
    ∀ m ∈ mentions (sort args).hookArgs, m.Guarded := by
  induction args using sort_induction with
  | nil => exact nofun
  | separator rest =>
    rw [sort_separator]
    exact nofun
  | file token rest hk ih =>
    rw [sort_file hk]
    exact ih h.tail
  | tool token rest hk ih =>
    rw [sort_tool hk]
    exact ih h.tail
  | refused token rest o hk hr ih =>
    rw [sort_refused hk hr]
    exact ih h.tail
  | whole token rest hk ih =>
    have hnames := names_kindOf token
    rw [hk] at hnames
    cases hnames with
    | whole o own hn hv _ =>
      have hm := mentions_whole hn hv (sort rest).hookArgs
      rw [sort_whole hk]
      exact hm.symm ▸ List.forall_mem_cons.2 ⟨fun _ => nofun, ih h.tail⟩
  | pair token v rest hk ih =>
    obtain ⟨o, hn, ht, -⟩ := named?_of_takesAlong hk
    have hm := mentions_pair hn ht v (sort rest).hookArgs
    have hfirst : Mention.Guarded ⟨token, o, none, some v⟩ := by
      intro hh w hw
      cases hw
      exact (List.isChain_cons_cons.1 h).1 o hn ht hh
    rw [sort_pair hk]
    exact hm.symm ▸ List.forall_mem_cons.2 ⟨hfirst, ih h.tail.tail⟩
  | dangling token hk =>
    have hnames := names_kindOf token
    rw [hk] at hnames
    cases hnames with
    | awaiting o name hn ht _ _ =>
      have hm := mentions_dangling hn ht
      rw [sort_dangling hk]
      exact hm.symm ▸ List.forall_mem_singleton.2 fun _ => nofun

end Invocation

end LintHooks
