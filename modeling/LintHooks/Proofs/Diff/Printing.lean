import LintHooks.Diff.Unified
import LintHooks.Proofs.Diff.Patch
import LintHooks.Proofs.Text.Basic
import LintHooks.Proofs.Text.Lines
set_option autoImplicit false

/-!
# Diffs: what is printed can be read

The text of a diff consists of whole lines, and its hunks can be read from them: their headings, and
their lines with the signs.

The main result is `read?_printed`.  It follows the parts of the text from the smallest on: a range
(`readRange?_rangeText`), a heading (`readHeading?_hunkHeading`), a line with its sign and its note
(`readLines?_lineParts`), a hunk (`readLines?_hunkParts`), and all of them
(`readLines?_flatMap_hunkParts`).  Reading is by lines, so that each part is also known to consist
of whole ones (`ended_of_mem_diffParts`).  That is where the texts must be without carriage returns
(`IsLine`): one of them ends a line without a line feed, and nothing is put after it.
-/

namespace LintHooks.Diff

open Patch (Sign Range)

/-! ## Numbers and ranges -/

theorem toList_toString (n : Nat) : (toString n).toList = Nat.toDigits 10 n := Nat.toList_repr

theorem isDigit_of_mem_toDigits {c : Char} {n : Nat} (h : c ∈ Nat.toDigits 10 n) :
    c.isDigit = true :=
  Nat.isDigit_of_mem_toDigits (by decide) (by decide) h

theorem readNumber?_toString (n : Nat) : Patch.readNumber? (toString n).toList = some n := by
  rw [toList_toString, Patch.readNumber?, if_pos, Nat.ofDigitChars_ten_toDigits]
  exact ⟨Nat.toDigits_ne_nil, List.all_eq_true.2 fun c hc => isDigit_of_mem_toDigits hc⟩

theorem not_mem_toString {c : Char} (hc : c.isDigit = false) (n : Nat) :
    c ∉ (toString n).toList := by
  rw [toList_toString]
  intro hmem
  rw [isDigit_of_mem_toDigits hmem] at hc
  cases hc

theorem readRange?_rangeText (start stop : Nat) :
    Patch.readRange? (rangeText start stop).toList = some ⟨start, stop - start⟩ := by
  have hbare (n : Nat) : ',' ∉ (toString n).toList := not_mem_toString (by decide) n
  rw [rangeText]
  generalize stop - start = count
  split
  · next hone =>
    rw [Patch.readRange?, Text.cut?_eq_none (hbare _), hone]
    dsimp only
    rw [readNumber?_toString]
  · split
    · next hzero =>
      have hrange : (toString start ++ ",0").toList = (toString start).toList ++ ',' :: ['0'] := by
        simp
      rw [Patch.readRange?, hrange, Text.cut?_append (hbare _), hzero]
      dsimp only
      rw [readNumber?_toString]
      rfl
    · next hmany =>
      have hrange : (toString (start + 1) ++ "," ++ toString count).toList =
          (toString (start + 1)).toList ++ ',' :: (toString count).toList := by simp
      rw [Patch.readRange?, hrange, Text.cut?_append (hbare _)]
      dsimp only
      rw [readNumber?_toString, readNumber?_toString]
      cases count with
      | zero => exact absurd rfl hmany
      | succ count => rfl

theorem not_mem_rangeText {c : Char} (hc : c.isDigit = false) (hcomma : c ≠ ',')
    (start stop : Nat) : c ∉ (rangeText start stop).toList := by
  have hzero : c ∉ ",0".toList := by
    intro hmem
    rcases List.mem_pair.1 hmem with rfl | rfl
    · exact hcomma rfl
    · cases hc
  have hbare : c ∉ ",".toList := fun hmem => hcomma (List.mem_singleton.1 hmem)
  rw [rangeText]
  split
  · exact not_mem_toString hc _
  · split
    · rw [String.toList_append, List.mem_append, not_or]
      exact ⟨not_mem_toString hc _, hzero⟩
    · rw [String.toList_append, String.toList_append, List.mem_append, List.mem_append, not_or,
        not_or]
      exact ⟨⟨not_mem_toString hc _, hbare⟩, not_mem_toString hc _⟩

/-! ## Lines -/

/-- The sign that stands before a line. -/
def signChar : Sign → Char
  | .kept => ' '
  | .removed => '-'
  | .added => '+'

theorem readSign?_signChar (sign : Sign) : Patch.readSign? (signChar sign) = some sign := by
  cases sign <;> rfl

/-- A line as it is printed, with a note if it has no line feed. -/
def lineParts (line : Sign × List Char) : List (List Char) :=
  if line.2.getLast? = some '\n' then [signChar line.1 :: line.2]
  else [signChar line.1 :: (line.2 ++ ['\n']), Patch.note]

theorem lineText_eq (sign : Sign) {line : List Char} (h : '\r' ∉ line) :
    (lineText (signChar sign) line).toList = (lineParts (sign, line)).flatten := by
  have hbare : line.getLast? ≠ some '\r' := fun hlast => h (List.mem_of_getLast? hlast)
  rw [lineText, lineParts, String.toList_append, String.toList_ofList]
  by_cases hfeed : line.getLast? = some '\n'
  · rw [if_pos (.inl hfeed), if_pos hfeed, List.flatten_singleton]
    exact List.append_nil _
  · have hnote : "\n\\ No newline at end of file\n".toList = '\n' :: Patch.note := by decide
    rw [if_neg (not_or.2 ⟨hfeed, hbare⟩), if_neg hfeed, hnote, List.flatten_cons,
      List.flatten_singleton, List.cons_append, List.cons_append, List.append_assoc,
      List.singleton_append]

/-- A line of a text: it has a line feed at its end at most, and no carriage return. -/
def IsLine (line : List Char) : Prop :=
  '\r' ∉ line ∧ ('\n' ∉ line ∨ ∃ s, '\n' ∉ s ∧ line = s ++ ['\n'])

theorem ended_of_mem_lineParts {line : Sign × List Char} (hline : IsLine line.2) {part : List Char}
    (hpart : part ∈ lineParts line) : ∃ s, '\n' ∉ s ∧ part = s ++ ['\n'] := by
  have hsign : '\n' ≠ signChar line.1 := by cases line.1 <;> decide
  rw [lineParts] at hpart
  split at hpart
  · next hfeed =>
    rcases hline.2 with hnone | ⟨s, hs, heq⟩
    · exact absurd (List.mem_of_getLast? hfeed) hnone
    · refine ⟨signChar line.1 :: s, List.not_mem_cons_of_ne_of_not_mem hsign hs, ?_⟩
      rw [List.mem_singleton.1 hpart, heq, List.cons_append]
  · next hbare =>
    rcases List.mem_cons.1 hpart with rfl | hpart
    · rcases hline.2 with hnone | ⟨s, hs, heq⟩
      · exact ⟨_, List.not_mem_cons_of_ne_of_not_mem hsign hnone, (List.cons_append ..).symm⟩
      · rw [heq, List.getLast?_concat] at hbare
        exact absurd rfl hbare
    · rw [List.mem_singleton.1 hpart]
      exact ⟨"\\ No newline at end of file".toList, by decide, by decide⟩

variable {read : List (Sign × List Char)} {hs : List Patch.Hunk} {rest : List (List Char)}

theorem readLines?_lineParts (line : Sign × List Char)
    (hrest : Patch.readLines? rest = some ⟨false, read, hs⟩) :
    Patch.readLines? (lineParts line ++ rest) = some ⟨false, line :: read, hs⟩ := by
  have hnote (text : List Char) : signChar line.1 :: text ≠ Patch.note := by
    cases line.1 <;> exact fun h => absurd (List.cons.inj h).1 (by decide)
  rw [lineParts]
  split
  · rw [List.singleton_append, Patch.readLines?, hrest, Option.bind_some, Patch.Reading.line?,
      if_neg (hnote _)]
    dsimp only
    rw [readSign?_signChar]
    rfl
  · rw [List.cons_append, List.singleton_append, Patch.readLines?, Patch.readLines?, hrest,
      Option.bind_some, Patch.Reading.line?.eq_def, if_pos rfl]
    dsimp only
    rw [if_neg Bool.false_ne_true, Option.bind_some, Patch.Reading.line?, if_neg (hnote _)]
    dsimp only
    rw [readSign?_signChar, if_pos rfl, List.dropLast_concat]

theorem readLines?_flatMap (lines : List (Sign × List Char))
    (hrest : Patch.readLines? rest = some ⟨false, read, hs⟩) :
    Patch.readLines? (lines.flatMap lineParts ++ rest) = some ⟨false, lines ++ read, hs⟩ := by
  induction lines with
  | nil => exact hrest
  | cons line lines ih =>
    rw [List.flatMap_cons, List.append_assoc]
    exact readLines?_lineParts line ih

/-! ## Hunks -/

variable {old new : Array (List Char)} {hunk : List Change} {found : List (List Change)}

theorem toList_hunkHeading {first last : Change} (hfirst : hunk.head? = some first)
    (hlast : hunk.getLast? = some last) :
    (hunkHeading hunk).toList = ['@', '@', ' ', '-'] ++
      ((rangeText first.oldStart last.oldStop).toList ++ ' ' :: '+' ::
        ((rangeText first.newStart last.newStop).toList ++ ' ' :: ['@', '@', '\n'])) := by
  rw [hunkHeading, hfirst, hlast]
  simp

/-- The ranges in the heading of a hunk. -/
def rangesOf (hunk : List Change) : Range × Range :=
  match hunk.head?, hunk.getLast? with
  | some first, some last =>
    (⟨first.oldStart, last.oldStop - first.oldStart⟩,
      ⟨first.newStart, last.newStop - first.newStart⟩)
  | _, _ => (⟨0, 0⟩, ⟨0, 0⟩)

theorem exists_ends (hne : hunk ≠ []) :
    ∃ first last, hunk.head? = some first ∧ hunk.getLast? = some last :=
  ⟨_, _, List.head?_eq_some_head hne, List.getLast?_eq_some_getLast hne⟩

theorem readHeading?_hunkHeading (hne : hunk ≠ []) :
    Patch.readHeading? (hunkHeading hunk).toList = some (rangesOf hunk) := by
  obtain ⟨first, last, hfirst, hlast⟩ := exists_ends hne
  have hbare (start stop : Nat) : ' ' ∉ (rangeText start stop).toList :=
    not_mem_rangeText (by decide) (by decide) start stop
  have hplus (s : List Char) : Text.after? ['+'] ('+' :: s) = some s :=
    Text.after?_eq_some_iff.2 rfl
  rw [toList_hunkHeading hfirst hlast, Patch.readHeading?, Text.after?_eq_some_iff.2 rfl, rangesOf,
    hfirst, hlast]
  simp only [Option.bind_eq_bind, Option.bind_some, Text.cut?_append (hbare _ _), hplus, if_true,
    readRange?_rangeText]

theorem ended_hunkHeading (hne : hunk ≠ []) :
    ∃ s, '\n' ∉ s ∧ (hunkHeading hunk).toList = s ++ ['\n'] := by
  obtain ⟨first, last, hfirst, hlast⟩ := exists_ends hne
  have hbare (start stop : Nat) : '\n' ∉ (rangeText start stop).toList :=
    not_mem_rangeText (by decide) (by decide) start stop
  refine ⟨['@', '@', ' ', '-'] ++ ((rangeText first.oldStart last.oldStop).toList ++ ' ' :: '+' ::
    ((rangeText first.newStart last.newStop).toList ++ ' ' :: ['@', '@'])), ?_, ?_⟩
  · simp [hbare]
  · rw [toList_hunkHeading hfirst hlast]
    simp

/-- The lines of a change, with what they are there for. -/
def Change.lines (old new : Array (List Char)) : Change → List (Sign × List Char)
  | .keep o _ count => ((old.toList.drop o).take count).map (Sign.kept, ·)
  | .replace o oldCount n newCount =>
    ((old.toList.drop o).take oldCount).map (Sign.removed, ·) ++
      ((new.toList.drop n).take newCount).map (Sign.added, ·)

/-- What a hunk says to those who read it. -/
def patchOf (old new : Array (List Char)) (hunk : List Change) : Patch.Hunk :=
  ⟨(rangesOf hunk).1, (rangesOf hunk).2, hunk.flatMap (Change.lines old new)⟩

/-- The lines of the text of a hunk. -/
def hunkParts (old new : Array (List Char)) (hunk : List Change) : List (List Char) :=
  (hunkHeading hunk).toList :: (hunk.flatMap (Change.lines old new)).flatMap lineParts

theorem toList_join_map {β : Type} {f : β → String} {parts : β → List (List Char)} {xs : List β}
    (h : ∀ x ∈ xs, (f x).toList = (parts x).flatten) :
    (String.join (xs.map f)).toList = (xs.flatMap parts).flatten := by
  induction xs with
  | nil => rfl
  | cons x xs ih =>
    rw [List.map_cons, String.join_cons, String.toList_append, h x List.mem_cons_self,
      ih fun x hx => h x (List.mem_cons_of_mem _ hx), List.flatMap_cons, List.flatten_append]

theorem mem_of_mem_slice {ls : List (List Char)} {start count : Nat} {line : List Char}
    (h : line ∈ (ls.drop start).take count) : line ∈ ls :=
  List.mem_of_mem_drop (List.mem_of_mem_take h)

theorem isLine_of_mem_lines (hold : ∀ line ∈ old.toList, IsLine line)
    (hnew : ∀ line ∈ new.toList, IsLine line) {c : Change} {line : Sign × List Char}
    (h : line ∈ c.lines old new) : IsLine line.2 := by
  cases c with
  | keep o n count =>
    obtain ⟨text, htext, rfl⟩ := List.mem_map.1 h
    exact hold text (mem_of_mem_slice htext)
  | replace o oldCount n newCount =>
    rcases List.mem_append.1 h with h | h
    · obtain ⟨text, htext, rfl⟩ := List.mem_map.1 h
      exact hold text (mem_of_mem_slice htext)
    · obtain ⟨text, htext, rfl⟩ := List.mem_map.1 h
      exact hnew text (mem_of_mem_slice htext)

theorem toList_linesText (sign : Sign) {ls : Array (List Char)}
    (h : ∀ line ∈ ls.toList, IsLine line) (start count : Nat) :
    (linesText (signChar sign) ls start count).toList =
      ((((ls.toList.drop start).take count).map (sign, ·)).flatMap lineParts).flatten := by
  rw [linesText, List.flatMap_map]
  exact toList_join_map fun line hline => lineText_eq sign (h line (mem_of_mem_slice hline)).1

theorem toList_text (hold : ∀ line ∈ old.toList, IsLine line)
    (hnew : ∀ line ∈ new.toList, IsLine line) (c : Change) :
    (c.text old new).toList = ((c.lines old new).flatMap lineParts).flatten := by
  cases c with
  | keep o n count => exact toList_linesText .kept hold o count
  | replace o oldCount n newCount =>
    rw [Change.text, Change.lines, String.toList_append, List.flatMap_append, List.flatten_append]
    exact congrArg₂ (· ++ ·) (toList_linesText .removed hold o oldCount)
      (toList_linesText .added hnew n newCount)

theorem toList_hunkText (hold : ∀ line ∈ old.toList, IsLine line)
    (hnew : ∀ line ∈ new.toList, IsLine line) (hunk : List Change) :
    (hunkText old new hunk).toList = (hunkParts old new hunk).flatten := by
  rw [hunkText, hunkParts, String.toList_append, List.flatten_cons, List.flatMap_assoc,
    toList_join_map fun c _ => toList_text hold hnew c]

theorem line?_heading {line : List Char} {ranges : Range × Range} (hstart : line.head? = some '@')
    (h : Patch.readHeading? line = some ranges) :
    Patch.Reading.line? ⟨false, read, hs⟩ line =
      some ⟨false, [], ⟨ranges.1, ranges.2, read⟩ :: hs⟩ := by
  cases line with
  | nil => cases hstart
  | cons c text =>
    obtain rfl : c = '@' := Option.some.inj hstart
    have hnote : '@' :: text ≠ Patch.note := fun h => absurd (List.cons.inj h).1 (by decide)
    have hsign : Patch.readSign? '@' = none := rfl
    rw [Patch.Reading.line?, if_neg hnote]
    dsimp only
    rw [hsign]
    dsimp only
    rw [if_neg Bool.false_ne_true, h, Option.map_some]

theorem readLines?_hunkParts (hne : hunk ≠ [])
    (hrest : Patch.readLines? rest = some ⟨false, [], hs⟩) :
    Patch.readLines? (hunkParts old new hunk ++ rest) =
      some ⟨false, [], patchOf old new hunk :: hs⟩ := by
  obtain ⟨first, last, hfirst, hlast⟩ := exists_ends hne
  have hstart : (hunkHeading hunk).toList.head? = some '@' := by
    rw [toList_hunkHeading hfirst hlast]
    rfl
  rw [hunkParts, List.cons_append, Patch.readLines?, readLines?_flatMap _ hrest, Option.bind_some,
    List.append_nil, line?_heading hstart (readHeading?_hunkHeading hne), patchOf]

theorem readLines?_flatMap_hunkParts (hne : ∀ hunk ∈ found, hunk ≠ []) :
    Patch.readLines? (found.flatMap (hunkParts old new)) =
      some ⟨false, [], found.map (patchOf old new)⟩ := by
  induction found with
  | nil => rfl
  | cons hunk found ih =>
    exact readLines?_hunkParts (hne hunk List.mem_cons_self)
      (ih fun hunk hmem => hne hunk (List.mem_cons_of_mem _ hmem))

theorem ended_of_mem_hunkParts (hold : ∀ line ∈ old.toList, IsLine line)
    (hnew : ∀ line ∈ new.toList, IsLine line) (hne : hunk ≠ []) {part : List Char}
    (hpart : part ∈ hunkParts old new hunk) : ∃ s, '\n' ∉ s ∧ part = s ++ ['\n'] := by
  rcases List.mem_cons.1 hpart with rfl | hpart
  · exact ended_hunkHeading hne
  · obtain ⟨line, hline, hpart⟩ := List.mem_flatMap.1 hpart
    obtain ⟨c, -, hline⟩ := List.mem_flatMap.1 hline
    exact ended_of_mem_lineParts (isLine_of_mem_lines hold hnew hline) hpart

/-! ## Diffs -/

/-- The text of hunks under the names of two texts. -/
def printed (oldName newName : String) (old new : Array (List Char)) (found : List (List Change)) :
    String :=
  if found = [] then ""
  else
    "--- " ++ oldName ++ "\n+++ " ++ newName ++ "\n" ++ String.join (found.map (hunkText old new))

/-- The lines of the text of a diff. -/
def diffParts (oldName newName : String) (old new : Array (List Char))
    (found : List (List Change)) : List (List Char) :=
  ("--- ".toList ++ oldName.toList ++ ['\n']) :: ("+++ ".toList ++ newName.toList ++ ['\n']) ::
    found.flatMap (hunkParts old new)

theorem ended_of_mem_diffParts {oldName newName : String} (holdName : '\n' ∉ oldName.toList)
    (hnewName : '\n' ∉ newName.toList) (hold : ∀ line ∈ old.toList, IsLine line)
    (hnew : ∀ line ∈ new.toList, IsLine line) (hne : ∀ hunk ∈ found, hunk ≠ []) {part : List Char}
    (hpart : part ∈ diffParts oldName newName old new found) :
    ∃ s, '\n' ∉ s ∧ part = s ++ ['\n'] := by
  rcases List.mem_cons.1 hpart with rfl | hpart
  · exact ⟨_, by simp [holdName], rfl⟩
  · rcases List.mem_cons.1 hpart with rfl | hpart
    · exact ⟨_, by simp [hnewName], rfl⟩
    · obtain ⟨hunk, hhunk, hpart⟩ := List.mem_flatMap.1 hpart
      exact ended_of_mem_hunkParts hold hnew (hne hunk hhunk) hpart

theorem toList_printed (oldName newName : String) (hold : ∀ line ∈ old.toList, IsLine line)
    (hnew : ∀ line ∈ new.toList, IsLine line) (hfound : found ≠ []) :
    (printed oldName newName old new found).toList =
      (diffParts oldName newName old new found).flatten := by
  rw [printed, if_neg hfound, diffParts, List.flatten_cons, List.flatten_cons,
    ← toList_join_map fun hunk _ => toList_hunkText hold hnew hunk]
  simp

/-- The hunks of a diff can be read from its text. -/
theorem read?_printed {oldName newName : String} (holdName : '\n' ∉ oldName.toList)
    (hnewName : '\n' ∉ newName.toList) (hold : ∀ line ∈ old.toList, IsLine line)
    (hnew : ∀ line ∈ new.toList, IsLine line) (hne : ∀ hunk ∈ found, hunk ≠ []) :
    Patch.read? oldName.toList newName.toList (printed oldName newName old new found).toList =
      some (found.map (patchOf old new)) := by
  by_cases hfound : found = []
  · rw [hfound]
    rfl
  · rw [toList_printed oldName newName hold hnew hfound, Patch.read?,
      Text.pieces_flatten fun part => ended_of_mem_diffParts holdName hnewName hold hnew hne,
      diffParts]
    dsimp only
    rw [if_pos ⟨rfl, rfl⟩, readLines?_flatMap_hunkParts hne]

end LintHooks.Diff
