import LintHooks.Proofs.Basic
import LintHooks.Proofs.Options.Sorting
set_option autoImplicit false

/-!
# Options: a command line is its streams again

Sorting a command line gives each token in front of the separator a role: a file, an option of
the tool, an option of the hook or the value of one.  `Role.Fits` says where a token may have
which role, and it says so without the sorter, from what the token is by itself (`kindOf`) and
from its neighbors: an option that lacks a value is followed by one, and a letter is left to the
tool only if it does not accept what follows.  `Labels` are roles that fit everywhere, up to the
separator or the end, and a `Layout` adds that the tokens of the roles are the streams.

The main result is `exists_layout_sort`: a command line has one layout, and its streams are those
that it is sorted into.  The argument has one equivalence for each way in which sorting goes on
(`labels_alone_iff` for a token that stands for itself, `labels_refused_iff` for a letter that is
left to the tool, `labels_pair_iff` for an option with its value), which says what the labels are
in front of those of the rest.  By `sort_induction` they add up to `exists_onlyLayout`.  What a
`--` can be is then seen from the roles that fit it (`Labels.hyphens`), and that the separator is
nobody's value from those that fit the token in front of it (`Labels.not_taken`).

The other way round, streams of tokens that each stand for themselves are found again in any
merge of them (`sort_of_merges`).
-/

namespace LintHooks

namespace Invocation

/-! ## Streams and roles -/

/-- The streams in front of the separator. -/
inductive Stream where
  | hook
  | tool
  | file
  deriving DecidableEq, Repr

/-- The tokens of a stream. -/
def stream (i : Invocation) : Stream → List String
  | .hook => i.hookArgs
  | .tool => i.toolArgs
  | .file => i.files

/-- What a token stands for in front of the separator. -/
inductive Role where
  /-- An option of the hook. -/
  | option
  /-- The value of the option of the hook right before it. -/
  | value
  | tool
  | file
  deriving DecidableEq, Repr

/-- The stream of the tokens in a role. -/
def Role.stream : Role → Stream
  | .option => .hook
  | .value => .hook
  | .tool => .tool
  | .file => .file

/-- What the tokens of a stream are if each of them stands for itself. -/
def Stream.kind : Stream → Kind
  | .hook => .whole
  | .tool => .tool
  | .file => .file

/-- The role of a token of a stream that stands for itself. -/
def Stream.role : Stream → Role
  | .hook => .option
  | .tool => .tool
  | .file => .file

/-- Whether a token may have a role between the labelled tokens `before` and `after` it, where
`tail` is all that has no label. -/
def Role.Fits (before : List (Role × String)) (token : String) (after : List (Role × String))
    (tail : List String) : Role → Prop
  -- Either it needs no value, or the next token is the value, or there is no next token at all.
  | .option =>
    kindOf token = .whole ∨
    (∃ value more, after = (.value, value) :: more ∧ (kindOf token).takesAlong value = true) ∨
    (kindOf token = .awaiting ∧ after = [] ∧ tail = [])
  | .value => ∃ front option, before = front ++ [(.option, option)] ∧ awaitsValue option = true
  -- The hook does not know it, or knows it as a letter that does not accept the next token.
  | .tool =>
    kindOf token = .tool ∨
    ∃ o, kindOf token = .letter o ∧ (after.map Prod.snd ++ tail).head?.any o.accepts = false
  | .file => kindOf token = .file

/-- Roles that fit for the tokens of a command line in front of its separator. -/
structure Labels (args : List String) (labelled : List (Role × String)) (tail : List String) :
    Prop where
  /-- Nothing is lost, repeated, moved or made up. -/
  covers : args = labelled.map Prod.snd ++ tail
  /-- What has no label is nothing, or the separator and all behind it. -/
  separator : tail = [] ∨ ∃ rest, tail = "--" :: rest
  fits : ∀ before role token after, labelled = before ++ (role, token) :: after →
    role.Fits before token after tail

/-- The tokens of a command line in roles that fit, by which they make up the streams. -/
structure Layout (args : List String) (i : Invocation) (labelled : List (Role × String))
    (tail : List String) : Prop extends Labels args labelled tail where
  /-- The last stream is all behind the separator. -/
  ddash : i.ddash = tail.tail
  /-- The other streams are merged in front of it. -/
  streams : ∀ k, select Role.stream k labelled = i.stream k

variable {args rest tail tail' : List String} {i : Invocation}
  {before front after labelled labelled' : List (Role × String)} {role : Role}
  {token value : String}

theorem nil_ne_append_cons {α : Type} {before after : List α} {a : α} :
    [] ≠ before ++ a :: after :=
  (List.append_ne_nil_of_right_ne_nil before (List.cons_ne_nil a after)).symm

/-! ## Kinds of tokens and their values -/

theorem ne_separator_of_kindOf (h : kindOf token ≠ .separator) : token ≠ "--" :=
  fun ht => h (kindOf_eq_separator_iff.2 ht)

theorem awaitsValue_of_whole (h : kindOf token = .whole) : awaitsValue token = false := by
  apply Bool.eq_false_iff.2
  intro ha
  rcases awaitsValue_iff.1 ha with hk | ⟨o, hk⟩
  · rw [h] at hk
    cases hk
  · rw [h] at hk
    cases hk

theorem awaitsValue_of_takesAlong (h : (kindOf token).takesAlong value = true) :
    awaitsValue token = true := by
  refine awaitsValue_iff.2 ?_
  cases hk : kindOf token with
  | awaiting => exact .inl rfl
  | letter o => exact .inr ⟨o, rfl⟩
  | _ =>
    rw [hk] at h
    cases h

/-! ## Roles that fit -/

theorem Role.not_fits_value_nil : ¬ Role.value.Fits [] token after tail := by
  rintro ⟨front, option, h, -⟩
  exact nil_ne_append_cons h

/-- What stands further in front matters only if it ends with an option that lacks a value. -/
theorem Role.fits_append_iff
    (hfront : ∀ init option, front = init ++ [(.option, option)] → awaitsValue option = false) :
    role.Fits (front ++ before) token after tail ↔ role.Fits before token after tail := by
  cases role with
  | option => exact Iff.rfl
  | tool => exact Iff.rfl
  | file => exact Iff.rfl
  | value =>
    rcases List.eq_nil_or_concat before with rfl | ⟨init, p, rfl⟩
    · rw [List.append_nil]
      constructor
      · rintro ⟨init, option, h, hawaits⟩
        rw [hfront init option h] at hawaits
        cases hawaits
      · exact fun h => absurd h not_fits_value_nil
    · rw [List.concat_eq_append, ← List.append_assoc]
      constructor
      · rintro ⟨f, option, h, hawaits⟩
        obtain ⟨-, hp⟩ := List.append_inj' h rfl
        exact ⟨init, option, congrArg (init ++ ·) hp, hawaits⟩
      · rintro ⟨f, option, h, hawaits⟩
        obtain ⟨-, hp⟩ := List.append_inj' h rfl
        exact ⟨front ++ init, option, congrArg (front ++ init ++ ·) hp, hawaits⟩

/-- A `--` can only be a value. -/
theorem Role.eq_value_of_fits (h : role.Fits before "--" after tail) : role = .value := by
  have hk : kindOf "--" = .separator := kindOf_eq_separator_iff.2 rfl
  cases role with
  | value => rfl
  | file =>
    rw [Role.Fits, hk] at h
    cases h
  | tool =>
    rw [Role.Fits, hk] at h
    rcases h with h | ⟨o, h, -⟩ <;> cases h
  | option =>
    rw [Role.Fits, hk] at h
    rcases h with h | ⟨value, more, -, h⟩ | ⟨h, -⟩ <;> cases h

/-! ## Taking labels off -/

theorem labels_nil_iff : Labels [] labelled tail ↔ labelled = [] ∧ tail = [] := by
  constructor
  · intro h
    obtain ⟨hmap, htail⟩ := List.append_eq_nil_iff.1 h.covers.symm
    exact ⟨List.map_eq_nil_iff.1 hmap, htail⟩
  · rintro ⟨rfl, rfl⟩
    exact ⟨rfl, .inl rfl, fun _ _ _ _ h => absurd h nil_ne_append_cons⟩

/-- The labels of a token that is not the separator begin with one for it. -/
theorem Labels.exists_cons (h : Labels (token :: rest) labelled tail) (ht : token ≠ "--") :
    ∃ role after, labelled = (role, token) :: after := by
  cases labelled with
  | nil =>
    have hcovers : token :: rest = tail := h.covers
    rcases h.separator with rfl | ⟨more, rfl⟩
    · cases hcovers
    · exact absurd (List.cons.inj hcovers).1 ht
  | cons p after =>
    obtain ⟨role, t⟩ := p
    obtain rfl : token = t := (List.cons.inj h.covers).1
    exact ⟨role, after, rfl⟩

/-- Labels stay labels behind tokens that fit their roles and do not end with an option that lacks
its value, and in front of these they were labels before. -/
theorem labels_append_iff
    (hfront : ∀ init option, front = init ++ [(.option, option)] → awaitsValue option = false) :
    Labels (front.map Prod.snd ++ rest) (front ++ labelled) tail ↔
      (∀ before role token after, front = before ++ (role, token) :: after →
        role.Fits before token (after ++ labelled) tail) ∧ Labels rest labelled tail := by
  constructor
  · intro h
    refine ⟨?_, ?_, h.separator, ?_⟩
    · rintro before role token after rfl
      exact h.fits before role token (after ++ labelled) (List.append_assoc ..)
    · have hcovers := h.covers
      rw [List.map_append, List.append_assoc] at hcovers
      exact List.append_cancel_left hcovers
    · rintro before role token after rfl
      exact (Role.fits_append_iff hfront).1
        (h.fits (front ++ before) role token after (List.append_assoc ..).symm)
  · rintro ⟨hfits, h⟩
    refine ⟨?_, h.separator, ?_⟩
    · rw [h.covers, List.map_append, List.append_assoc]
    · intro before role token after hsplit
      rcases List.append_eq_append_iff.1 hsplit with ⟨before', rfl, hb⟩ | ⟨more, hf, hl⟩
      · exact (Role.fits_append_iff hfront).2 (h.fits before' role token after hb)
      · cases more with
        | nil =>
          obtain rfl : front = before := hf.trans (List.append_nil before)
          rw [← List.append_nil front]
          exact (Role.fits_append_iff hfront).2 (h.fits [] role token after hl.symm)
        | cons p more =>
          obtain ⟨rfl, rfl⟩ := List.cons.inj hl
          exact hfits before role token more hf

/-- A token with only one role that fits it has that one in all labels, and the others are
labels of the rest. -/
theorem labels_single_iff (ht : token ≠ "--") (ho : role = .option → awaitsValue token = false)
    (hrole : ∀ after, rest = after.map Prod.snd ++ tail →
      ∀ r : Role, r.Fits [] token after tail ↔ r = role) :
    Labels (token :: rest) labelled tail ↔
      ∃ after, labelled = (role, token) :: after ∧ Labels rest after tail := by
  have hfront : ∀ init option, [(role, token)] = init ++ [(Role.option, option)] →
      awaitsValue option = false := by
    intro init option h
    obtain ⟨-, hp⟩ := List.append_inj' (show [] ++ [(role, token)] = _ from h) rfl
    cases hp
    exact ho rfl
  have hiff (after : List (Role × String)) :
      Labels (token :: rest) ((role, token) :: after) tail ↔ _ := labels_append_iff hfront
  constructor
  · intro h
    obtain ⟨r, after, rfl⟩ := h.exists_cons ht
    have hcovers : rest = after.map Prod.snd ++ tail := (List.cons.inj h.covers).2
    obtain rfl : r = role := (hrole after hcovers r).1 (h.fits [] r token after rfl)
    exact ⟨after, rfl, ((hiff after).1 h).2⟩
  · rintro ⟨after, rfl, h⟩
    refine (hiff after).2 ⟨?_, h⟩
    intro before r t more hsplit
    cases before with
    | nil =>
      cases hsplit
      exact (hrole after h.covers role).2 rfl
    | cons p before => exact absurd (List.cons.inj hsplit).2 nil_ne_append_cons

theorem labels_separator_iff :
    Labels ("--" :: rest) labelled tail ↔ labelled = [] ∧ tail = "--" :: rest := by
  constructor
  · intro h
    cases labelled with
    | nil => exact ⟨rfl, h.covers.symm⟩
    | cons p after =>
      obtain ⟨role, token⟩ := p
      obtain rfl : "--" = token := (List.cons.inj h.covers).1
      have hfits := h.fits [] role "--" after rfl
      obtain rfl := Role.eq_value_of_fits hfits
      exact absurd hfits Role.not_fits_value_nil
  · rintro ⟨rfl, rfl⟩
    exact ⟨rfl, .inr ⟨rest, rfl⟩, fun _ _ _ _ h => absurd h nil_ne_append_cons⟩

/-- A token that stands for itself has the role of its stream. -/
theorem labels_alone_iff {k : Stream} (hk : kindOf token = k.kind) :
    Labels (token :: rest) labelled tail ↔
      ∃ after, labelled = (k.role, token) :: after ∧ Labels rest after tail := by
  have ht : token ≠ "--" := by
    refine ne_separator_of_kindOf ?_
    rw [hk]
    cases k <;> nofun
  have ho : k.role = .option → awaitsValue token = false := by
    intro hrole
    cases k with
    | hook => exact awaitsValue_of_whole hk
    | _ => cases hrole
  refine labels_single_iff ht ho fun after _ r => ?_
  cases k <;> cases r <;> simp [Role.Fits, Kind.takesAlong, Stream.kind, Stream.role, hk]

theorem labels_refused_iff {o : Opt} (hk : kindOf token = .letter o)
    (hr : rest.head?.any o.accepts = false) :
    Labels (token :: rest) labelled tail ↔
      ∃ after, labelled = (.tool, token) :: after ∧ Labels rest after tail := by
  refine labels_single_iff (ne_separator_of_kindOf (by rw [hk]; nofun)) nofun ?_
  intro after hcovers r
  rw [hcovers] at hr
  cases r with
  | tool => exact ⟨fun _ => rfl, fun _ => .inr ⟨o, hk, hr⟩⟩
  | option =>
    -- As an option it would have a value that it accepts, and that is what follows.
    have hpair : ∀ v more, after = (Role.value, v) :: more → o.accepts v = false := by
      rintro v more rfl
      exact hr
    simpa [Role.Fits, Kind.takesAlong, hk] using hpair
  | _ => simp [Role.Fits, hk]

/-- What an option that takes the next token along can be by itself. -/
theorem Role.eq_option_of_fits {more : List String}
    (hk : (kindOf token).takesAlong value = true)
    (hcovers : value :: more = after.map Prod.snd ++ tail) (h : role.Fits [] token after tail) :
    role = .option := by
  cases role with
  | option => rfl
  | value => exact absurd h not_fits_value_nil
  | file =>
    rw [Role.Fits] at h
    rw [h] at hk
    cases hk
  | tool =>
    rcases h with h | ⟨o, h, hr⟩
    · rw [h] at hk
      cases hk
    · rw [h] at hk
      rw [← hcovers] at hr
      exact absurd hk (Bool.eq_false_iff.1 hr)

theorem labels_pair_iff (hk : (kindOf token).takesAlong value = true) :
    Labels (token :: value :: rest) labelled tail ↔
      ∃ after, labelled = (.option, token) :: (.value, value) :: after ∧
        Labels rest after tail := by
  have hawaits : awaitsValue token = true := awaitsValue_of_takesAlong hk
  have ht : token ≠ "--" := by
    rintro rfl
    cases hawaits
  have hfront : ∀ init option, [(Role.option, token), (.value, value)] =
      init ++ [(Role.option, option)] → awaitsValue option = false := by
    intro init option h
    obtain ⟨-, hp⟩ := List.append_inj' (show [_] ++ [(Role.value, value)] = _ from h) rfl
    cases hp
  have hiff (after : List (Role × String)) :
      Labels (token :: value :: rest) ((.option, token) :: (.value, value) :: after) tail ↔ _ :=
    labels_append_iff hfront
  constructor
  · intro h
    obtain ⟨role, after, rfl⟩ := h.exists_cons ht
    have hcovers : value :: rest = after.map Prod.snd ++ tail := (List.cons.inj h.covers).2
    have hfits := h.fits [] role token after rfl
    obtain rfl := Role.eq_option_of_fits hk hcovers hfits
    rcases hfits with hw | ⟨v, more, rfl, -⟩ | ⟨-, rfl, rfl⟩
    · rw [hw] at hk
      cases hk
    · obtain rfl : value = v := (List.cons.inj hcovers).1
      exact ⟨more, rfl, ((hiff more).1 h).2⟩
    · cases hcovers
  · rintro ⟨after, rfl, h⟩
    refine (hiff after).2 ⟨?_, h⟩
    intro before r t more hsplit
    match before with
    | [] =>
      cases hsplit
      exact .inr (.inl ⟨value, after, rfl, hk⟩)
    | [p] =>
      cases hsplit
      exact ⟨[], token, rfl, hawaits⟩
    | p :: q :: before =>
      exact absurd (List.cons.inj (List.cons.inj hsplit).2).2 nil_ne_append_cons

theorem labels_dangling_iff (hk : kindOf token = .awaiting) :
    Labels [token] labelled tail ↔ labelled = [(.option, token)] ∧ tail = [] := by
  have ht : token ≠ "--" := ne_separator_of_kindOf (by rw [hk]; nofun)
  constructor
  · intro h
    obtain ⟨role, after, rfl⟩ := h.exists_cons ht
    have hcovers : [] = after.map Prod.snd ++ tail := (List.cons.inj h.covers).2
    obtain ⟨hmap, rfl⟩ := List.append_eq_nil_iff.1 hcovers.symm
    obtain rfl := List.map_eq_nil_iff.1 hmap
    have hfits := h.fits [] role token [] rfl
    cases role with
    | option => exact ⟨rfl, rfl⟩
    | value => exact absurd hfits Role.not_fits_value_nil
    | tool => simp [Role.Fits, hk] at hfits
    | file => simp [Role.Fits, hk] at hfits
  · rintro ⟨rfl, rfl⟩
    refine ⟨rfl, .inl rfl, fun before role t after hsplit => ?_⟩
    cases before with
    | nil =>
      cases hsplit
      exact .inr (.inr ⟨hk, rfl, rfl⟩)
    | cons p before => exact absurd (List.cons.inj hsplit).2 nil_ne_append_cons

/-! ## A whole command line -/

/-- A layout whose labels are the only ones that the command line has. -/
structure OnlyLayout (args : List String) (i : Invocation) (labelled : List (Role × String))
    (tail : List String) : Prop extends Layout args i labelled tail where
  unique : ∀ labelled' tail', Labels args labelled' tail' → labelled' = labelled ∧ tail' = tail

/-- A token that has one role in all labels goes in front of the layout of the rest. -/
theorem OnlyLayout.single {j : Invocation} (h : OnlyLayout rest i labelled tail)
    (hiff : ∀ labelled' tail', Labels (token :: rest) labelled' tail' ↔
      ∃ after, labelled' = (role, token) :: after ∧ Labels rest after tail')
    (hd : j.ddash = i.ddash)
    (hs : ∀ k, j.stream k = if role.stream = k then token :: i.stream k else i.stream k) :
    OnlyLayout (token :: rest) j ((role, token) :: labelled) tail where
  toLabels := (hiff _ tail).2 ⟨labelled, rfl, h.toLabels⟩
  ddash := hd.trans h.ddash
  streams k := by rw [select_cons, h.streams, hs]
  unique labelled' tail' hl := by
    obtain ⟨after, rfl, hafter⟩ := (hiff labelled' tail').1 hl
    obtain ⟨rfl, rfl⟩ := h.unique after tail' hafter
    exact ⟨rfl, rfl⟩

/-- An option goes in front of a layout together with its value. -/
theorem OnlyLayout.pair (h : OnlyLayout rest i labelled tail)
    (hk : (kindOf token).takesAlong value = true) :
    OnlyLayout (token :: value :: rest) (i.forHook [token, value])
      ((.option, token) :: (.value, value) :: labelled) tail where
  toLabels := (labels_pair_iff hk).2 ⟨labelled, rfl, h.toLabels⟩
  ddash := h.ddash
  streams k := by
    rw [select_cons, select_cons, h.streams]
    cases k <;> rfl
  unique labelled' tail' hl := by
    obtain ⟨after, rfl, hafter⟩ := (labels_pair_iff hk).1 hl
    obtain ⟨rfl, rfl⟩ := h.unique after tail' hafter
    exact ⟨rfl, rfl⟩

/-- Each way in which sorting goes on finds the only labels. -/
theorem exists_onlyLayout (args : List String) :
    ∃ labelled tail, OnlyLayout args (sort args) labelled tail := by
  induction args using sort_induction with
  | nil =>
    refine ⟨[], [], ⟨labels_nil_iff.2 ⟨rfl, rfl⟩, rfl, fun k => by cases k <;> rfl⟩, ?_⟩
    exact fun _ _ h => labels_nil_iff.1 h
  | separator rest =>
    rw [sort_separator]
    refine ⟨[], _, ⟨labels_separator_iff.2 ⟨rfl, rfl⟩, rfl, fun k => by cases k <;> rfl⟩, ?_⟩
    exact fun _ _ h => labels_separator_iff.1 h
  | file token rest hk ih =>
    obtain ⟨labelled, tail, h⟩ := ih
    rw [sort_file hk]
    refine ⟨_, tail, h.single (fun _ _ => labels_alone_iff (k := .file) hk) rfl fun l => ?_⟩
    cases l <;> rfl
  | tool token rest hk ih =>
    obtain ⟨labelled, tail, h⟩ := ih
    rw [sort_tool hk]
    refine ⟨_, tail, h.single (fun _ _ => labels_alone_iff (k := .tool) hk) rfl fun l => ?_⟩
    cases l <;> rfl
  | refused token rest o hk hr ih =>
    obtain ⟨labelled, tail, h⟩ := ih
    rw [sort_refused hk hr]
    refine ⟨_, tail, h.single (fun _ _ => labels_refused_iff hk hr) rfl fun l => ?_⟩
    cases l <;> rfl
  | whole token rest hk ih =>
    obtain ⟨labelled, tail, h⟩ := ih
    rw [sort_whole hk]
    refine ⟨_, tail, h.single (fun _ _ => labels_alone_iff (k := .hook) hk) rfl fun l => ?_⟩
    cases l <;> rfl
  | pair token value rest hk ih =>
    obtain ⟨labelled, tail, h⟩ := ih
    rw [sort_pair hk]
    exact ⟨_, tail, h.pair hk⟩
  | dangling token hk =>
    rw [sort_dangling hk]
    refine ⟨_, [], ⟨(labels_dangling_iff hk).2 ⟨rfl, rfl⟩, rfl, fun k => by cases k <;> rfl⟩, ?_⟩
    exact fun _ _ h => (labels_dangling_iff hk).1 h

/-- The streams are read off the labels. -/
theorem Layout.eq_of_labels {j : Invocation} (h : Layout args i labelled tail)
    (h' : Layout args j labelled tail) : i = j := by
  have hstream (k : Stream) : i.stream k = j.stream k := (h.streams k).symm.trans (h'.streams k)
  have hddash : i.ddash = j.ddash := h.ddash.trans h'.ddash.symm
  obtain ⟨hook, tool, files, ddash⟩ := i
  obtain rfl : ddash = j.ddash := hddash
  obtain rfl : hook = j.hookArgs := hstream .hook
  obtain rfl : tool = j.toolArgs := hstream .tool
  obtain rfl : files = j.files := hstream .file
  rfl

/-- A `--` with a label stands right behind an option that takes a value and has none. -/
theorem Labels.hyphens (h : Labels args labelled tail)
    (hsplit : labelled = before ++ (role, "--") :: after) :
    role = .value ∧
      ∃ front option, before = front ++ [(.option, option)] ∧ awaitsValue option = true := by
  have hfits := h.fits before role "--" after hsplit
  obtain rfl := Role.eq_value_of_fits hfits
  exact ⟨rfl, hfits⟩

/-- The token in front of the separator does not take it along, unless it is a value itself. -/
theorem Labels.not_taken (h : Labels args labelled ("--" :: rest))
    (hsplit : labelled = before ++ [(role, token)]) :
    role = .value ∨ (kindOf token).takesAlong "--" = false := by
  have hfits := h.fits before role token [] hsplit
  cases role with
  | value => exact .inl rfl
  | file =>
    right
    rw [show kindOf token = .file from hfits]
    rfl
  | tool =>
    right
    rcases hfits with hk | ⟨o, hk, hr⟩
    · rw [hk]
      rfl
    · rw [hk]
      exact hr
  | option =>
    right
    rcases hfits with hk | ⟨value, more, hnil, -⟩ | ⟨-, -, hnil⟩
    · rw [hk]
      rfl
    · cases hnil
    · cases hnil

/-- A command line has one layout, and its streams are those that it is sorted into.  In it a `--`
in front of the separator stands right behind an option that takes a value and has none, and what
stands right in front of the separator does not take it as a value, unless it is a value itself.
So the separator is the first `--` that is no value of an option. -/
theorem exists_layout_sort (args : List String) :
    ∃ labelled tail, Layout args (sort args) labelled tail ∧
      (∀ before role after, labelled = before ++ (role, "--") :: after →
        role = .value ∧
        ∃ front option, before = front ++ [(.option, option)] ∧ awaitsValue option = true) ∧
      (tail ≠ [] → ∀ before role token, labelled = before ++ [(role, token)] →
        role = .value ∨ (kindOf token).takesAlong "--" = false) ∧
      ∀ i labelled' tail', Layout args i labelled' tail' →
        i = sort args ∧ labelled' = labelled ∧ tail' = tail := by
  obtain ⟨labelled, tail, h⟩ := exists_onlyLayout args
  refine ⟨labelled, tail, h.toLayout, fun _ _ _ => h.hyphens, ?_, ?_⟩
  · intro htail before role token hsplit
    obtain ⟨rest, rfl⟩ := h.separator.resolve_left htail
    exact h.not_taken hsplit
  · intro i labelled' tail' h'
    obtain ⟨rfl, rfl⟩ := h.unique labelled' tail' h'.toLabels
    exact ⟨h'.eq_of_labels h.toLayout, rfl, rfl⟩

/-! ## Tokens that need no other -/

theorem sort_append {tagged : List (Stream × String)}
    (h : ∀ p ∈ tagged, kindOf p.2 = p.1.kind) (tail : List String) :
    sort (tagged.map Prod.snd ++ tail) =
      { hookArgs := select id .hook tagged ++ (sort tail).hookArgs
        toolArgs := select id .tool tagged ++ (sort tail).toolArgs
        files := select id .file tagged ++ (sort tail).files
        ddash := (sort tail).ddash } := by
  induction tagged with
  | nil => rfl
  | cons p tagged ih =>
    obtain ⟨k, token⟩ := p
    have hk : kindOf token = k.kind := h (k, token) List.mem_cons_self
    have ih := ih fun q hq => h q (List.mem_cons_of_mem (k, token) hq)
    rw [List.map_cons, List.cons_append]
    cases k with
    | hook =>
      rw [sort_whole hk, ih]
      rfl
    | tool =>
      rw [sort_tool hk, ih]
      rfl
    | file =>
      rw [sort_file hk, ih]
      rfl

/-- Any merge of streams of such tokens is sorted into these streams. -/
theorem sort_of_merges {front : List String} (hm : Merges i.stream front)
    (hk : ∀ k, ∀ token ∈ i.stream k, kindOf token = k.kind)
    (ht : tail = [] ∧ i.ddash = [] ∨ tail = "--" :: i.ddash) : sort (front ++ tail) = i := by
  obtain ⟨tagged, rfl, hs⟩ := hm
  have hkind : ∀ p ∈ tagged, kindOf p.2 = p.1.kind := fun p hp =>
    hk p.1 p.2 (hs p.1 ▸ mem_select.2 ⟨p.1, hp, rfl⟩)
  have htail : sort tail = { ddash := i.ddash } := by
    rcases ht with ⟨rfl, hd⟩ | rfl
    · rw [hd]
      rfl
    · exact sort_separator i.ddash
  rw [sort_append hkind, htail, hs, hs, hs]
  simp only [List.append_nil]
  rfl

end Invocation

end LintHooks
