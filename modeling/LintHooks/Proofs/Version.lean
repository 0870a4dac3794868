import LintHooks.Version
import Mathlib.Data.List.Basic
set_option autoImplicit false

/-!
# Versions: which one an output holds

What a version is can be said without saying how it is read: groups of digits with points between
them and a last part.  The reader takes as many groups as it can and gives one of them back where
nothing is left for the last part, and that is the longest version there is at a place.  Of the
places that have one the first counts.

The main result is `extract?_spec`.  What is read at one place is a version (`isVersion_of_token?`),
and every version that stands there is part of it (`IsVersion.prefix_token?`).  Both inductions are
on the length and go from one group to the next; where nothing more is read, the last part must be
there (`IsVersion.split`, `tail?_eq_some`).  The places are gone through by `extractFrom_spec`, from
the beginning of the output to its end, and as there is only one first place with only one longest
version (`IsFirst.unique`), this says which version is found.
-/

namespace LintHooks.Version

/-! ## What a version is -/

/-- One or more characters of a class. -/
structure Run (p : Char → Bool) (s : List Char) : Prop where
  ne_nil : s ≠ []
  all : ∀ c ∈ s, p c = true

/-- One or more groups of digits, each with a point after it, and then one or more digits, small
letters and signs. -/
inductive IsVersion : List Char → Prop where
  | single {digits last : List Char} : Run Text.isDigit digits → Run isTailChar last →
    IsVersion (digits ++ '.' :: last)
  | more {digits t : List Char} : Run Text.isDigit digits → IsVersion t →
    IsVersion (digits ++ '.' :: t)

/-- A version stands in an output behind a text, which itself stands behind `before`. -/
structure Follows (output lookBehind before t : List Char) : Prop where
  isVersion : IsVersion t
  stands : before ++ (lookBehind ++ t) <+: output

/-- The longest version behind the first place of a text that has a version behind it. -/
def IsFirst (output lookBehind t : List Char) : Prop :=
  ∃ before, Follows output lookBehind before t ∧
    (∀ before' t', Follows output lookBehind before' t' → before.length ≤ before'.length) ∧
    ∀ t', Follows output lookBehind before t' → t'.length ≤ t.length

variable {s t u digits last more lookBehind output : List Char}

theorem isDigit_point : Text.isDigit '.' = false := by decide

theorem isTailChar_point : isTailChar '.' = false := by decide

theorem Run.point_not_mem (h : Run isTailChar s) : '.' ∉ s := by
  intro hmem
  have htail := h.all '.' hmem
  rw [isTailChar_point] at htail
  cases htail

theorem IsVersion.point_mem (h : IsVersion t) : '.' ∈ t := by
  cases h with
  | single _ _ => exact List.mem_append_right _ List.mem_cons_self
  | more _ _ => exact List.mem_append_right _ List.mem_cons_self

/-- No version ends in a point. -/
theorem IsVersion.getLast?_ne (h : IsVersion t) : t.getLast? ≠ some '.' := by
  induction h with
  | @single digits last _ hlast =>
    intro hpoint
    rw [List.getLast?_append_cons, List.getLast?_cons_of_ne_nil hlast.ne_nil] at hpoint
    exact hlast.point_not_mem (List.mem_of_getLast? hpoint)
  | @more digits t _ ht ih =>
    have hne : t ≠ [] := List.ne_nil_of_mem ht.point_mem
    rwa [List.getLast?_append_cons, List.getLast?_cons_of_ne_nil hne]

/-! ## The longest version at a place -/

/-- The digits of a first group are all the digits that stand there. -/
theorem Run.span_eq (h : Run Text.isDigit digits) (rest : List Char) :
    (digits ++ '.' :: rest).takeWhile Text.isDigit = digits ∧
      (digits ++ '.' :: rest).dropWhile Text.isDigit = '.' :: rest := by
  rw [List.takeWhile_append_of_pos h.all, List.dropWhile_append_of_pos h.all,
    List.takeWhile_cons_of_neg (by rw [isDigit_point]; exact Bool.false_ne_true),
    List.dropWhile_cons_of_neg (by rw [isDigit_point]; exact Bool.false_ne_true), List.append_nil]
  exact ⟨rfl, rfl⟩

/-- Where a version stands there are digits, a point, and either the last part or one more
version. -/
theorem IsVersion.split (ht : IsVersion t) (hs : t <+: s) :
    ∃ digits more t', s = digits ++ '.' :: more ∧ Run Text.isDigit digits ∧
      t = digits ++ '.' :: t' ∧ t' <+: more ∧ (Run isTailChar t' ∨ IsVersion t') := by
  obtain ⟨rest, rfl⟩ := hs
  cases ht with
  | @single digits last hdigits hlast =>
    exact ⟨digits, last ++ rest, last, by simp, hdigits, rfl, List.prefix_append _ _, .inl hlast⟩
  | @more digits t hdigits ht =>
    exact ⟨digits, t ++ rest, t, by simp, hdigits, rfl, List.prefix_append _ _, .inr ht⟩

theorem token?_group (h : Run Text.isDigit digits) (more : List Char) :
    token? (digits ++ '.' :: more) =
      ((token? more) <|> tail? more).map fun t => digits ++ '.' :: t := by
  obtain ⟨htake, hdrop⟩ := h.span_eq more
  rw [token?]
  split
  · next rest heq =>
    rw [hdrop] at heq
    cases heq
    rw [htake, if_neg h.ne_nil]
  · next hnone => exact absurd hdrop (hnone more)

/-- What is read begins with a group of digits and a point. -/
theorem exists_group_of_token? (h : token? s = some t) :
    ∃ digits more, s = digits ++ '.' :: more ∧ Run Text.isDigit digits := by
  rw [token?] at h
  split at h
  · next more heq =>
    split at h
    · cases h
    · next hne =>
      refine ⟨s.takeWhile Text.isDigit, more, ?_, hne, List.all_eq_true.1 List.all_takeWhile⟩
      rw [← heq, List.takeWhile_append_dropWhile]
  · cases h

theorem tail?_eq_some (h : tail? s = some t) : Run isTailChar t ∧ t <+: s := by
  rw [tail?] at h
  split at h
  · cases h
  · next hne =>
    cases h
    exact ⟨⟨hne, List.all_eq_true.1 List.all_takeWhile⟩, List.takeWhile_prefix _⟩

/-- Whatever of the characters of a last part stands at a place is read. -/
theorem Run.prefix_tail? (h : Run isTailChar u) (hs : u <+: s) :
    ∃ t, tail? s = some t ∧ u <+: t := by
  obtain ⟨rest, rfl⟩ := hs
  have htake : (u ++ rest).takeWhile isTailChar = u ++ rest.takeWhile isTailChar :=
    List.takeWhile_append_of_pos h.all
  have hne : u ++ rest.takeWhile isTailChar ≠ [] := List.append_ne_nil_of_left_ne_nil h.ne_nil _
  refine ⟨u ++ rest.takeWhile isTailChar, ?_, List.prefix_append _ _⟩
  rw [tail?, htake]
  exact if_neg hne

/-- What is read at a place is a version that stands there. -/
theorem isVersion_of_token? (h : token? s = some t) : IsVersion t ∧ t <+: s := by
  induction hn : s.length using Nat.strongRecOn generalizing s t with
  | ind n ih =>
    obtain ⟨digits, more, rfl, hdigits⟩ := exists_group_of_token? h
    rw [token?_group hdigits, Option.map_eq_some_iff] at h
    obtain ⟨t', ht', rfl⟩ := h
    rw [Option.orElse_eq_orElse, Option.orElse_eq_or, Option.or_eq_some_iff] at ht'
    have hshorter : more.length < n := by
      rw [← hn, List.length_append, List.length_cons]
      omega
    have hprefix (hmore : t' <+: more) : digits ++ '.' :: t' <+: digits ++ '.' :: more :=
      (List.prefix_append_right_inj digits).2 ((List.prefix_cons_inj '.').2 hmore)
    rcases ht' with htoken | ⟨-, htail⟩
    · obtain ⟨hversion, hmore⟩ := ih more.length hshorter htoken rfl
      exact ⟨.more hdigits hversion, hprefix hmore⟩
    · obtain ⟨hlast, hmore⟩ := tail?_eq_some htail
      exact ⟨.single hdigits hlast, hprefix hmore⟩

/-- Every version that stands at a place is part of the one that is read there. -/
theorem IsVersion.prefix_token? (hu : IsVersion u) (hs : u <+: s) :
    ∃ t, token? s = some t ∧ u <+: t := by
  induction hn : u.length using Nat.strongRecOn generalizing s u with
  | ind n ih =>
    obtain ⟨digits, more, u', rfl, hdigits, rfl, hmore, hu'⟩ := hu.split hs
    have hrest : ∃ t, ((token? more) <|> tail? more) = some t ∧ u' <+: t := by
      rcases hu' with hlast | hversion
      · cases htoken : token? more with
        | none => exact hlast.prefix_tail? hmore
        | some t =>
          -- the version has a point in it, so that it goes on behind the last part
          obtain ⟨hversion, ht⟩ := isVersion_of_token? htoken
          refine ⟨t, rfl, ?_⟩
          rcases List.prefix_or_prefix_of_prefix hmore ht with hut | htu
          · exact hut
          · exact absurd (htu.subset hversion.point_mem) hlast.point_not_mem
      · have hshorter : u'.length < n := by
          rw [← hn, List.length_append, List.length_cons]
          omega
        obtain ⟨t, ht, hut⟩ := ih u'.length hshorter hversion hmore rfl
        exact ⟨t, by rw [ht]; rfl, hut⟩
    obtain ⟨t, ht, hut⟩ := hrest
    refine ⟨digits ++ '.' :: t, ?_, ?_⟩
    · rw [token?_group hdigits, ht, Option.map_some]
    · exact (List.prefix_append_right_inj digits).2 ((List.prefix_cons_inj '.').2 hut)

/-! ## The first place -/

theorem follows_nil_iff :
    Follows output lookBehind [] t ↔
      IsVersion t ∧ ∃ rest, Text.after? lookBehind output = some rest ∧ t <+: rest := by
  constructor
  · rintro ⟨ht, rest, rfl⟩
    refine ⟨ht, t ++ rest, Text.after?_eq_some_iff.2 ?_, List.prefix_append _ _⟩
    rw [List.nil_append, List.append_assoc]
  · rintro ⟨ht, rest, hafter, hrest⟩
    rw [Text.after?_eq_some_iff] at hafter
    subst hafter
    exact ⟨ht, (List.prefix_append_right_inj lookBehind).2 hrest⟩

theorem follows_cons_iff {c b : Char} {before : List Char} :
    Follows (c :: output) lookBehind (b :: before) t ↔
      b = c ∧ Follows output lookBehind before t := by
  constructor
  · rintro ⟨ht, hs⟩
    obtain ⟨hb, hrest⟩ := List.cons_prefix_cons.1 hs
    exact ⟨hb, ht, hrest⟩
  · rintro ⟨rfl, ht, hs⟩
    exact ⟨ht, (List.prefix_cons_inj b).2 hs⟩

theorem not_follows_cons_nil {b : Char} {before : List Char} :
    ¬ Follows [] lookBehind (b :: before) t := by
  rintro ⟨-, hs⟩
  cases List.prefix_nil.1 hs

/-- What is found at the beginning of an output: the longest version behind the text, if any version
is there. -/
theorem read_here (lookBehind output : List Char) :
    match (Text.after? lookBehind output).bind token? with
    | none => ∀ t, ¬ Follows output lookBehind [] t
    | some t => Follows output lookBehind [] t ∧
        ∀ u, Follows output lookBehind [] u → u.length ≤ t.length := by
  split
  · next hnone =>
    intro t hfollows
    obtain ⟨ht, rest, hafter, hrest⟩ := follows_nil_iff.1 hfollows
    obtain ⟨u, hu, -⟩ := ht.prefix_token? hrest
    rw [hafter, Option.bind_some, hu] at hnone
    cases hnone
  · next t hsome =>
    obtain ⟨rest, hafter, htoken⟩ := Option.bind_eq_some_iff.1 hsome
    obtain ⟨ht, hrest⟩ := isVersion_of_token? htoken
    refine ⟨follows_nil_iff.2 ⟨ht, rest, hafter, hrest⟩, fun u hfollows => ?_⟩
    obtain ⟨hu, rest', hafter', hrest'⟩ := follows_nil_iff.1 hfollows
    obtain rfl : rest = rest' := Option.some.inj (hafter.symm.trans hafter')
    obtain ⟨t', ht', hut⟩ := hu.prefix_token? hrest'
    obtain rfl : t = t' := Option.some.inj (htoken.symm.trans ht')
    exact hut.length_le

theorem isFirst_here (ht : Follows output lookBehind [] t)
    (hlongest : ∀ u, Follows output lookBehind [] u → u.length ≤ t.length) :
    IsFirst output lookBehind t :=
  ⟨[], ht, fun _ _ _ => Nat.zero_le _, hlongest⟩

/-- Where nothing follows at the beginning, the first place is that of the rest. -/
theorem IsFirst.cons (h : IsFirst output lookBehind t) {c : Char}
    (hhere : ∀ t, ¬ Follows (c :: output) lookBehind [] t) :
    IsFirst (c :: output) lookBehind t := by
  obtain ⟨before, hfollows, hfirst, hlongest⟩ := h
  refine ⟨c :: before, follows_cons_iff.2 ⟨rfl, hfollows⟩, fun before' t' hfollows' => ?_,
    fun t' hfollows' => hlongest t' (follows_cons_iff.1 hfollows').2⟩
  cases before' with
  | nil => exact absurd hfollows' (hhere t')
  | cons b before' =>
    exact Nat.succ_le_succ (hfirst before' t' (follows_cons_iff.1 hfollows').2)

/-- The places of an output are its beginning and those of its rest. -/
theorem extractFrom_spec (lookBehind output : List Char) :
    match extractFrom lookBehind output with
    | none => ∀ before t, ¬ Follows output lookBehind before t
    | some t => IsFirst output lookBehind t := by
  induction output with
  | nil =>
    have hhere := read_here lookBehind []
    rw [extractFrom]
    cases hread : (Text.after? lookBehind []).bind token? with
    | some t =>
      rw [hread] at hhere
      exact isFirst_here hhere.1 hhere.2
    | none =>
      rw [hread] at hhere
      intro before t
      cases before with
      | nil => exact hhere t
      | cons b before => exact not_follows_cons_nil
  | cons c output ih =>
    have hhere := read_here lookBehind (c :: output)
    rw [extractFrom]
    cases hread : (Text.after? lookBehind (c :: output)).bind token? with
    | some t =>
      rw [hread] at hhere
      exact isFirst_here hhere.1 hhere.2
    | none =>
      rw [hread] at hhere
      dsimp only at hhere ⊢
      cases hrest : extractFrom lookBehind output with
      | some t =>
        rw [hrest] at ih
        exact ih.cons hhere
      | none =>
        rw [hrest] at ih
        intro before t hfollows
        cases before with
        | nil => exact hhere t hfollows
        | cons b before => exact ih before t (follows_cons_iff.1 hfollows).2

/-- There is one first place, and one longest version there. -/
theorem IsFirst.unique (ht : IsFirst output lookBehind t) (hu : IsFirst output lookBehind u) :
    t = u := by
  obtain ⟨before, hfollows, hfirst, hlongest⟩ := ht
  obtain ⟨before', hfollows', hfirst', hlongest'⟩ := hu
  have hlength : before.length = before'.length :=
    Nat.le_antisymm (hfirst before' u hfollows') (hfirst' before t hfollows)
  have hplace : before = before' := by
    have hp := (List.prefix_append before _).trans hfollows.stands
    have hp' := (List.prefix_append before' _).trans hfollows'.stands
    exact (List.prefix_of_prefix_length_le hp hp' (Nat.le_of_eq hlength)).eq_of_length hlength
  subst hplace
  have hsame : t.length = u.length := Nat.le_antisymm (hlongest' t hfollows) (hlongest u hfollows')
  have hwhole : before ++ (lookBehind ++ t) = before ++ (lookBehind ++ u) := by
    have hle : (before ++ (lookBehind ++ t)).length = (before ++ (lookBehind ++ u)).length := by
      simp only [List.length_append, hsame]
    have hprefix := List.prefix_of_prefix_length_le hfollows.stands hfollows'.stands
      (Nat.le_of_eq hle)
    exact hprefix.eq_of_length hle
  exact List.append_cancel_left (List.append_cancel_left hwhole)

/-- An output has no version where none stands behind the text anywhere in it.  Else its version is
the longest one behind the first place of the text that has one, which never ends in a point. -/
theorem extract?_spec (output lookBehind : String) :
    (extract? output lookBehind = none ↔
      ∀ before t, ¬ Follows output.toList lookBehind.toList before t) ∧
    (∀ v, extract? output lookBehind = some v ↔
      IsFirst output.toList lookBehind.toList v.toList) ∧
    ∀ v, extract? output lookBehind = some v → v.toList.getLast? ≠ some '.' := by
  have hspec := extractFrom_spec lookBehind.toList output.toList
  rw [extract?]
  cases hfrom : extractFrom lookBehind.toList output.toList with
  | none =>
    rw [hfrom] at hspec
    refine ⟨iff_of_true rfl hspec, fun v => iff_of_false nofun ?_, nofun⟩
    rintro ⟨before, hfollows, -⟩
    exact hspec before v.toList hfollows
  | some t =>
    rw [hfrom] at hspec
    obtain ⟨before, hfollows, -⟩ := id hspec
    refine ⟨iff_of_false nofun fun hnone => hnone before t hfollows, fun v => ?_, ?_⟩
    · rw [Option.map_some, Option.some.injEq]
      constructor
      · rintro rfl
        rwa [String.toList_ofList]
      · intro hfirst
        rw [hspec.unique hfirst, String.ofList_toList]
    · rintro v ⟨⟩
      rw [String.toList_ofList]
      exact hfollows.isVersion.getLast?_ne

/-- The point at the end of a sentence is no part of the version. -/
example : extract? "tool x, tool 1.2." "tool " = some "1.2" := by cbv

end LintHooks.Version
