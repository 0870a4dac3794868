import LintHooks.CMake.Arguments
import LintHooks.Proofs.Text.Basic
set_option autoImplicit false

/-!
# CMake: quotes around the arguments for an operating system

The arguments that are meant for one operating system may be written in quotes, which are taken away
before CMake gets them.  All quotes at either end go, of both kinds and however many there are, and
not just the pairs of equal quotes that stand around an argument.  The two agree on an argument as
long as the pairs surround nothing with a quote at an end; an argument that ends in a quoted value
loses one quote of two.

The main result is `platform_arguments`, for all settings and systems: the arguments stand behind
all others (`arguments_append`), each without the quotes at its ends.  What trimming does is fixed
by what it leaves and what it takes (`trim_eq_iff`): the rest is `Bare`, and what is gone is nothing
but quotes (`Padded`).  Taking pairs away is described without a function, by `Unwraps`, which every
text does to exactly one other (`exists_unwraps`, `Unwraps.unique`).  The two are compared in
`withoutQuotes_eq_iff`, and an argument on which they differ is `platform_arguments_unbalanced`.
-/

namespace LintHooks

namespace Text

/-! ## Trimming -/

variable {p : Char → Bool} {s r : List Char}

/-- A text with no character of a class at either end. -/
def Bare (p : Char → Bool) (r : List Char) : Prop :=
  ∀ c, p c = true → r.head? ≠ some c ∧ r.getLast? ≠ some c

/-- A text with nothing but characters of a class before and behind it. -/
def Padded (p : Char → Bool) (s r : List Char) : Prop :=
  ∃ front back, (∀ c ∈ front, p c = true) ∧ (∀ c ∈ back, p c = true) ∧ s = front ++ r ++ back

theorem padded_trim (p : Char → Bool) (s : List Char) : Padded p s (trim p s) := by
  refine ⟨s.takeWhile p, ((s.dropWhile p).reverse.takeWhile p).reverse, ?_, ?_, ?_⟩
  · exact fun c hc => List.mem_takeWhile_imp hc
  · exact fun c hc => List.mem_takeWhile_imp (List.mem_reverse.1 hc)
  · rw [List.append_assoc, trim, trimEnd_append, List.takeWhile_append_dropWhile]

theorem bare_trim (p : Char → Bool) (s : List Char) : Bare p (trim p s) := by
  intro c hc
  constructor
  · intro hhead
    -- what the trimmed text begins with, the text begins with once its front is gone
    have hfront := head?_dropWhile_ne hc s
    rw [← trimEnd_append p (s.dropWhile p), List.head?_append] at hfront
    rw [trim] at hhead
    rw [hhead] at hfront
    exact hfront rfl
  · rw [trim, trimEnd, List.getLast?_reverse]
    exact head?_dropWhile_ne hc _

theorem trim_of_padded (hpadded : Padded p s r) (hbare : Bare p r) : trim p s = r := by
  obtain ⟨front, back, hfront, hback, rfl⟩ := hpadded
  cases r with
  | nil =>
    have hall : ∀ c ∈ front ++ back, p c = true := by
      simpa [or_imp, forall_and] using ⟨hfront, hback⟩
    rw [trim, List.append_nil, List.dropWhile_eq_nil_iff.2 hall]
    rfl
  | cons c r =>
    have hhead : ∀ d, p d = true → (c :: r ++ back).head? ≠ some d := fun d hd => (hbare d hd).1
    rw [trim, List.append_assoc, dropWhile_append_of_head hfront hhead,
      trimEnd_append_of_getLast hback fun d hd => (hbare d hd).2]

/-- Trimming takes away what is of the class at both ends, and all of it. -/
theorem trim_eq_iff : trim p s = r ↔ Padded p s r ∧ Bare p r := by
  constructor
  · rintro rfl
    exact ⟨padded_trim p s, bare_trim p s⟩
  · rintro ⟨hpadded, hbare⟩
    exact trim_of_padded hpadded hbare

/-! ## Pairs of quotes -/

/-- A text in which equal quotes stand around another one, in pairs. -/
def Paired (s r : List Char) : Prop :=
  ∃ quotes, (∀ q ∈ quotes, isQuote q = true) ∧ s = quotes ++ r ++ quotes.reverse

/-- A text without a pair of equal quotes around it. -/
def Unpaired (r : List Char) : Prop := ∀ q mid, isQuote q = true → r ≠ q :: (mid ++ [q])

/-- A text without the pairs of equal quotes around it: as many quotes go from its end as from its
beginning. -/
def Unwraps (s r : List Char) : Prop := Paired s r ∧ Unpaired r

theorem Paired.padded (h : Paired s r) : Padded isQuote s r := by
  obtain ⟨quotes, hquotes, rfl⟩ := h
  exact ⟨quotes, quotes.reverse, hquotes, by simpa using hquotes, rfl⟩

theorem exists_unwraps (s : List Char) : ∃ r, Unwraps s r := by
  induction hn : s.length using Nat.strong_induction_on generalizing s with
  | _ n ih =>
    by_cases h : Unpaired s
    · exact ⟨s, ⟨[], nofun, by simp⟩, h⟩
    · simp only [Unpaired, not_forall, not_not] at h
      obtain ⟨q, mid, hq, rfl⟩ := h
      obtain ⟨r, ⟨quotes, hquotes, rfl⟩, hr⟩ := ih mid.length (by simp at hn; omega) mid rfl
      refine ⟨r, ⟨q :: quotes, List.forall_mem_cons.2 ⟨hq, hquotes⟩, ?_⟩, hr⟩
      simp

theorem Unwraps.unique {r' : List Char} (h : Unwraps s r) (h' : Unwraps s r') : r = r' := by
  obtain ⟨⟨quotes, hquotes, rfl⟩, hr⟩ := h
  obtain ⟨⟨quotes', hquotes', heq⟩, hr'⟩ := h'
  induction quotes generalizing quotes' with
  | nil =>
    cases quotes' with
    | nil => simpa using heq
    | cons q quotes' =>
      exact absurd (by simpa using heq) (hr q (quotes' ++ r' ++ quotes'.reverse)
        (hquotes' q List.mem_cons_self))
  | cons q quotes ih =>
    obtain ⟨hq, hquotes⟩ := List.forall_mem_cons.1 hquotes
    cases quotes' with
    | nil =>
      exact absurd (by simpa using heq.symm) (hr' q (quotes ++ r ++ quotes.reverse) hq)
    | cons q' quotes' =>
      refine ih hquotes quotes' (List.forall_mem_cons.1 hquotes').2 ?_
      simp only [List.cons_append, List.reverse_cons, ← List.append_assoc, List.cons.injEq] at heq
      obtain ⟨rfl, heq⟩ := heq
      exact List.append_cancel_right heq

/-- Taking all quotes away comes to taking the pairs away where these surround nothing with a quote
at an end. -/
theorem withoutQuotes_eq_iff {s : String} {r : List Char} (h : Unwraps s.toList r) :
    withoutQuotes s = String.ofList r ↔ Bare isQuote r := by
  rw [withoutQuotes, String.ofList_inj, trim_eq_iff]
  exact and_iff_right h.1.padded

/-- A text is left as it is if it neither begins nor ends with a quote. -/
theorem withoutQuotes_eq_self_iff (s : String) : withoutQuotes s = s ↔ Bare isQuote s.toList := by
  have hself : Padded isQuote s.toList s.toList := ⟨[], [], nofun, nofun, by simp⟩
  rw [withoutQuotes, ← String.toList_inj, String.toList_ofList, trim_eq_iff]
  exact and_iff_right hself

end Text

/-! ## The arguments -/

/-- Settings without arguments that are meant for one operating system. -/
def Settings.withoutPlatformArgs (s : Settings) : Settings :=
  { s with
    lists := fun
      | .unix | .linux | .mac | .win => none
      | k => s.lists k }

namespace CMake

theorem arguments_append (s : Settings) (os : String) :
    arguments s os =
      arguments s.withoutPlatformArgs os ++ (s.platformArgs os).map Text.withoutQuotes := by
  have hnone : s.withoutPlatformArgs.platformArgs os = [] := by
    simp [Settings.platformArgs, Settings.list, Settings.withoutPlatformArgs]
  rw [arguments, arguments, hnone, List.map_nil, List.append_nil]
  rfl

/-- What becomes of the arguments for an operating system.  They stand behind all others, each
without the quotes at its ends.  An argument has lost the pairs of quotes around it and nothing else
if they surround nothing with a quote at an end, and is as it was if it has no quote at an end. -/
theorem platform_arguments (s : Settings) (os : String) :
    arguments s os =
        arguments s.withoutPlatformArgs os ++ (s.platformArgs os).map Text.withoutQuotes ∧
      ∀ arg : String,
        Text.Padded Text.isQuote arg.toList (Text.withoutQuotes arg).toList ∧
        Text.Bare Text.isQuote (Text.withoutQuotes arg).toList ∧
        (Text.withoutQuotes arg = arg ↔ Text.Bare Text.isQuote arg.toList) ∧
        ∃ core, (∀ r, Text.Unwraps arg.toList r ↔ r = core) ∧
          (Text.withoutQuotes arg = String.ofList core ↔ Text.Bare Text.isQuote core) := by
  refine ⟨arguments_append s os, fun arg => ?_⟩
  obtain ⟨core, hcore⟩ := Text.exists_unwraps arg.toList
  have htrimmed : (Text.withoutQuotes arg).toList = Text.trim Text.isQuote arg.toList :=
    String.toList_ofList
  rw [htrimmed]
  refine ⟨Text.padded_trim _ _, Text.bare_trim _ _, Text.withoutQuotes_eq_self_iff arg, core, ?_,
    Text.withoutQuotes_eq_iff hcore⟩
  exact fun r => ⟨fun hr => hr.unique hcore, fun hr => hr ▸ hcore⟩

/-- An argument that ends in a quoted value stands in no pair of quotes, and loses its last one. -/
theorem platform_arguments_unbalanced :
    Text.Unwraps "-DNAME=\"some value\"".toList "-DNAME=\"some value\"".toList ∧
      arguments (Settings.setList {} .linux (some ["-DNAME=\"some value\""])) "linux" =
        [exportDatabase, "-DNAME=\"some value"] := by
  refine ⟨⟨⟨[], nofun, by simp⟩, fun q mid hq heq => ?_⟩, by decide⟩
  obtain rfl : '-' = q := congrArg (·.headD ' ') heq
  exact absurd hq (by decide)

end CMake

end LintHooks
