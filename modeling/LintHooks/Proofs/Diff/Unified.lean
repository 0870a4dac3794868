import LintHooks.Proofs.Diff.Hunks
import LintHooks.Proofs.Diff.Printing
set_option autoImplicit false

/-!
# Diffs: what the hunks change

The hunks of a diff take the old text to the new one, and the heading of a hunk tells where it
stands if kept lines start and stop it.  A hunk without such lines stands at the beginning or at the
end of both texts, but its heading may say something else.

The main results are `read?_unified`, that the hunks which are read take the old text to the new one
and are `Framed`, and `unified_eq_empty_iff`, that there is nothing to read for equal texts only.
Where the hunks stand is known from the script that they come from (`stand_found`).  A change has
its lines in both texts (`Change.Moves.lines`) and is of one kind (`Change.Moves.signs`), so that a
hunk starts and stops with kept lines just where its text does (`Spans.startsKept_iff`,
`Spans.stopsKept_iff`); there its heading is right (`Spans.framed`).  `Stand.patches` goes on from
one hunk to all of them.
-/

namespace LintHooks.Diff

open Patch (Sign Framed Patches without)

variable {old new : Array (List Char)} {i j p q g : Nat} {c : Change} {hunk : List Change}

/-! ## Lines that stand in both texts -/

theorem without_append (sign : Sign) (xs ys : List (Sign × List Char)) :
    without sign (xs ++ ys) = without sign xs ++ without sign ys := by
  rw [without, List.filter_append, List.map_append, without, without]

theorem without_map_self (sign : Sign) (lines : List (List Char)) :
    without sign (lines.map (sign, ·)) = [] := by
  rw [without, List.filter_eq_nil_iff.2, List.map_nil]
  intro line hline
  obtain ⟨text, -, rfl⟩ := List.mem_map.1 hline
  simp

theorem without_map_of_ne {sign sign' : Sign} (hne : sign' ≠ sign) (lines : List (List Char)) :
    without sign (lines.map (sign', ·)) = lines := by
  rw [without, List.filter_eq_self.2, List.map_map]
  · exact List.map_id lines
  · intro line hline
    obtain ⟨text, -, rfl⟩ := List.mem_map.1 hline
    exact decide_eq_true hne

theorem take_append_drop_drop (ls : List (List Char)) (i n : Nat) :
    (ls.drop i).take n ++ ls.drop (i + n) = ls.drop i := by
  rw [← List.drop_drop, List.take_append_drop]

theorem Agree.take_eq {n : Nat} (h : Agree old new i j n) :
    (old.toList.drop i).take n = (new.toList.drop j).take n := by
  refine List.ext_getElem? fun t => ?_
  rw [List.getElem?_take, List.getElem?_take]
  split
  · next ht =>
    rw [List.getElem?_drop, List.getElem?_drop, Array.getElem?_toList, Array.getElem?_toList]
    exact h t ht
  · rfl

/-! ## Changes -/

/-- The lines of a change stand in both texts where it begins, and what it leads to comes after
them. -/
theorem Change.Moves.lines (h : Change.Moves old new c i j p q) :
    without .added (c.lines old new) ++ old.toList.drop p = old.toList.drop i ∧
      without .removed (c.lines old new) ++ new.toList.drop q = new.toList.drop j := by
  cases h with
  | @keep _ _ n hn hagree =>
    rw [Change.lines, without_map_of_ne (by decide), without_map_of_ne (by decide)]
    refine ⟨take_append_drop_drop _ _ _, ?_⟩
    rw [hagree.take_eq]
    exact take_append_drop_drop _ _ _
  | @replace _ _ o n m d hsome hold hnew =>
    rw [Change.lines, without_append, without_append, without_map_of_ne (by decide),
      without_map_self, without_map_self, without_map_of_ne (by decide), List.append_nil,
      List.nil_append]
    constructor
    · rcases Nat.eq_zero_or_pos n with rfl | hn
      · rfl
      · rw [hold hn]
        exact take_append_drop_drop _ _ _
    · rcases Nat.eq_zero_or_pos d with rfl | hd
      · rfl
      · rw [hnew hd]
        exact take_append_drop_drop _ _ _

theorem Change.Moves.le (h : Change.Moves old new c i j p q) : i ≤ p ∧ j ≤ q := by
  cases h with
  | keep _ _ => exact ⟨Nat.le_add_right _ _, Nat.le_add_right _ _⟩
  | replace _ _ _ => exact ⟨Nat.le_add_right _ _, Nat.le_add_right _ _⟩

theorem take_ne_nil {ls : List (List Char)} {n : Nat} (hn : 0 < n) (hle : i + n ≤ ls.length) :
    (ls.drop i).take n ≠ [] := by
  rw [← List.length_pos_iff, List.length_take, List.length_drop]
  omega

/-- A change has lines, and either all of them are kept ones or none is. -/
theorem Change.Moves.signs (h : Change.Moves old new c i j p q) (hp : p ≤ old.size)
    (hq : q ≤ new.size) :
    c.lines old new ≠ [] ∧ ∀ line ∈ c.lines old new, line.1 = .kept ↔ c.isKeep = true := by
  cases h with
  | keep hn hagree =>
    refine ⟨fun hnil => take_ne_nil hn hp (List.map_eq_nil_iff.1 hnil), fun line hline => ?_⟩
    obtain ⟨text, -, rfl⟩ := List.mem_map.1 hline
    exact iff_of_true rfl rfl
  | replace hsome hold hnew =>
    constructor
    · intro hnil
      obtain ⟨hremoved, hadded⟩ := List.append_eq_nil_iff.1 hnil
      rcases hsome with hn | hd
      · rw [hold hn] at hremoved
        exact take_ne_nil hn hp (List.map_eq_nil_iff.1 hremoved)
      · rw [hnew hd] at hadded
        exact take_ne_nil hd hq (List.map_eq_nil_iff.1 hadded)
    · intro line hline
      rcases List.mem_append.1 hline with hline | hline
      · obtain ⟨text, -, rfl⟩ := List.mem_map.1 hline
        exact iff_of_false nofun nofun
      · obtain ⟨text, -, rfl⟩ := List.mem_map.1 hline
        exact iff_of_false nofun nofun

/-! ## Hunks -/

theorem leads_lines (h : Leads (Change.Moves old new) i j hunk p q) :
    without .added (hunk.flatMap (Change.lines old new)) ++ old.toList.drop p = old.toList.drop i ∧
      without .removed (hunk.flatMap (Change.lines old new)) ++ new.toList.drop q =
        new.toList.drop j := by
  induction hunk generalizing i j with
  | nil =>
    obtain ⟨rfl, rfl⟩ := h
    exact ⟨rfl, rfl⟩
  | cons c hunk ih =>
    obtain ⟨i', j', hfirst, hrest⟩ := h
    rw [List.flatMap_cons, without_append, without_append, List.append_assoc, List.append_assoc,
      (ih hrest).1, (ih hrest).2]
    exact hfirst.lines

theorem leads_le (h : Leads (Change.Moves old new) i j hunk p q) : i ≤ p ∧ j ≤ q := by
  induction hunk generalizing i j with
  | nil =>
    obtain ⟨rfl, rfl⟩ := h
    exact ⟨Nat.le_refl _, Nat.le_refl _⟩
  | cons c hunk ih =>
    obtain ⟨i', j', hfirst, hrest⟩ := h
    exact ⟨hfirst.le.1.trans (ih hrest).1, hfirst.le.2.trans (ih hrest).2⟩

theorem Stand.le {hs : List (List Change)} (h : Stand old new i j hs) :
    i ≤ old.size ∧ j ≤ new.size := by
  induction h with
  | nil _ hold hnew => omega
  | cons _ hspans _ ih =>
    have := leads_le hspans.leads
    omega

section Spans

variable (h : Spans old new hunk i j p q) (hp : p ≤ old.size) (hq : q ≤ new.size)
include h hp hq

theorem Spans.stop_eq : i + (patchOf old new hunk).oldLines.length = p ∧
    j + (patchOf old new hunk).newLines.length = q := by
  obtain ⟨hold, hnew⟩ := leads_lines h.leads
  have hle := leads_le h.leads
  have holdLength := congrArg List.length hold
  have hnewLength := congrArg List.length hnew
  rw [List.length_append, List.length_drop, List.length_drop] at holdLength hnewLength
  have hsizes : old.toList.length = old.size ∧ new.toList.length = new.size := ⟨rfl, rfl⟩
  rw [Patch.Hunk.oldLines, Patch.Hunk.newLines, patchOf]
  dsimp only
  omega

/-- Kept lines start the text of a hunk if and only if they start the hunk. -/
theorem Spans.startsKept_iff :
    (patchOf old new hunk).StartsKept ↔ hunk.head?.any Change.isKeep = true := by
  cases hunk with
  | nil => exact absurd rfl h.ne
  | cons first rest =>
    obtain ⟨i', j', hfirst, hrest⟩ := h.leads
    have hle := leads_le hrest
    obtain ⟨hne, hsigns⟩ := hfirst.signs (hle.1.trans hp) (hle.2.trans hq)
    obtain ⟨line, lines, hlines⟩ := List.exists_cons_of_ne_nil hne
    rw [Patch.Hunk.StartsKept, patchOf, List.flatMap_cons, hlines, List.cons_append,
      List.head?_cons, Option.any_some, decide_eq_true_iff, List.head?_cons, Option.any_some]
    exact hsigns line (hlines ▸ List.mem_cons_self)

theorem Spans.stopsKept_iff :
    (patchOf old new hunk).StopsKept ↔ hunk.getLast?.any Change.isKeep = true := by
  obtain hnil | ⟨front, last, hhunk⟩ := List.eq_nil_or_concat hunk
  · exact absurd hnil h.ne
  · have hleads := h.leads
    rw [hhunk, List.concat_eq_append] at hleads ⊢
    obtain ⟨i', j', -, hlast⟩ := leads_append.1 hleads
    obtain ⟨hne, hsigns⟩ := (leads_single.1 hlast).signs hp hq
    obtain ⟨lines, line, hlines⟩ := (List.eq_nil_or_concat _).resolve_left hne
    rw [Patch.Hunk.StopsKept, patchOf, List.flatMap_append, List.flatMap_singleton, hlines,
      List.concat_eq_append, ← List.append_assoc, List.getLast?_concat, Option.any_some,
      decide_eq_true_iff, List.getLast?_concat, Option.any_some]
    refine hsigns line ?_
    rw [hlines, List.concat_eq_append]
    exact List.mem_append_right _ List.mem_cons_self

/-- The heading of a hunk is right where kept lines start and stop it. -/
theorem Spans.framed : Framed old.size new.size (patchOf old new hunk) i j := by
  obtain ⟨holdStop, hnewStop⟩ := h.stop_eq hp hq
  obtain ⟨first, last, hfirst, hlast⟩ := exists_ends h.ne
  have hranges : (patchOf old new hunk).old = ⟨first.oldStart, last.oldStop - first.oldStart⟩ ∧
      (patchOf old new hunk).new = ⟨first.newStart, last.newStop - first.newStart⟩ := by
    rw [patchOf, rangesOf, hfirst, hlast]
    exact ⟨rfl, rfl⟩
  constructor
  · rw [h.startsKept_iff hp hq, hranges.1, hranges.2]
    by_cases hkept : hunk.head?.any Change.isKeep = true
    · refine .inl ⟨hkept, ?_⟩
      rw [hfirst, Option.any_some] at hkept
      obtain ⟨rest, rfl⟩ := List.head?_eq_some_iff.1 hfirst
      obtain ⟨i', j', hmoves, -⟩ := h.leads
      cases hmoves with
      | keep _ _ => exact ⟨rfl, rfl⟩
      | replace _ _ _ => cases hkept
    · exact .inr ⟨hkept, h.starts.resolve_left hkept⟩
  · rw [h.stopsKept_iff hp hq, hranges.1, hranges.2, holdStop, hnewStop]
    by_cases hkept : hunk.getLast?.any Change.isKeep = true
    · refine .inl ⟨hkept, ?_⟩
      rw [hlast, Option.any_some] at hkept
      obtain ⟨front, rfl⟩ := List.getLast?_eq_some_iff.1 hlast
      obtain ⟨i', j', -, hmoves⟩ := leads_append.1 h.leads
      cases leads_single.1 hmoves with
      | keep _ _ => exact ⟨rfl, rfl⟩
      | replace _ _ _ => cases hkept
    · exact .inr ⟨hkept, h.stops.resolve_left hkept⟩

end Spans

theorem Stand.patches {hs : List (List Change)} (h : Stand old new i j hs) :
    Patches (Framed old.size new.size) i j (old.toList.drop i) (hs.map (patchOf old new))
      (new.toList.drop j) := by
  induction h with
  | @nil i j g hagree hold hnew =>
    have hsame : old.toList.drop i = new.toList.drop j := by
      have htake := hagree.take_eq
      rwa [List.take_of_length_le, List.take_of_length_le] at htake
      · rw [List.length_drop, Array.length_toList]
        omega
      · rw [List.length_drop, Array.length_toList]
        omega
    rw [hsame]
    exact .nil _
  | @cons i j g p q hunk hs hagree hspans hrest ih =>
    obtain ⟨hp, hq⟩ := hrest.le
    obtain ⟨holdStop, hnewStop⟩ := hspans.stop_eq hp hq
    obtain ⟨hold, hnew⟩ := leads_lines hspans.leads
    have hle := leads_le hspans.leads
    have hgap : ((old.toList.drop i).take g).length = g := by
      rw [List.length_take, List.length_drop, Array.length_toList]
      omega
    have hpatches := Patches.cons (h := patchOf old new hunk) ((old.toList.drop i).take g)
      (by rw [hgap]; exact hspans.framed hp hq) (by rw [hgap, holdStop, hnewStop]; exact ih)
    have holdText : (old.toList.drop i).take g ++ (patchOf old new hunk).oldLines ++
        old.toList.drop p = old.toList.drop i := by
      rw [List.append_assoc]
      exact (congrArg _ hold).trans (take_append_drop_drop _ _ _)
    have hnewText : (old.toList.drop i).take g ++ (patchOf old new hunk).newLines ++
        new.toList.drop q = new.toList.drop j := by
      rw [List.append_assoc, hagree.take_eq]
      exact (congrArg _ hnew).trans (take_append_drop_drop _ _ _)
    rwa [holdText, hnewText] at hpatches

theorem Stand.ne_nil {hs : List (List Change)} (h : Stand old new i j hs) :
    ∀ hunk ∈ hs, hunk ≠ [] := by
  induction h with
  | nil _ _ _ => nofun
  | cons _ hspans _ ih => exact List.forall_mem_cons.2 ⟨hspans.ne, ih⟩

/-! ## Diffs -/

theorem isLine_of_mem_pieces {s line : List Char} (hs : '\r' ∉ s) (h : line ∈ Text.pieces s) :
    IsLine line := by
  refine ⟨fun hmem => hs ?_, (Text.inPieces_pieces s).mem h⟩
  rw [← Text.flatten_pieces s]
  exact List.mem_flatten_of_mem h hmem

/-- The hunks of the difference of two sequences. -/
def found (old new : Array (List Char)) : List (List Change) :=
  hunks (changes (compact old new (script old new)))

theorem stand_found (old new : Array (List Char)) : Stand old new 0 0 (found old new) :=
  stand_hunks (leads_changes (leads_compact (leads_script old new)))

theorem found_eq_nil_iff (old new : Array (List Char)) : found old new = [] ↔ old = new := by
  constructor
  · intro hnone
    have hpatches := (stand_found old new).patches
    rw [hnone, List.drop_zero, List.drop_zero] at hpatches
    generalize hold : old.toList = ls at hpatches
    generalize hnew : new.toList = ms at hpatches
    cases hpatches with
    | nil => exact Array.toList_inj.1 (hold.trans hnew.symm)
  · rintro rfl
    rw [found, script_self, compact_step_keep, hunks_step_keep]

theorem unified_eq (oldName newName : String) {old new : String} (hold : '\r' ∉ old.toList)
    (hnew : '\r' ∉ new.toList) :
    unified oldName newName old new =
      printed oldName newName (Text.pieces old.toList).toArray (Text.pieces new.toList).toArray
        (found (Text.pieces old.toList).toArray (Text.pieces new.toList).toArray) := by
  rw [unified, Text.diffLines_of_not_mem hold, Text.diffLines_of_not_mem hnew]
  rfl

/-- The hunks that are read from a diff take the old text to the new one. -/
theorem read?_unified {oldName newName old new : String} (holdName : '\n' ∉ oldName.toList)
    (hnewName : '\n' ∉ newName.toList) (hold : '\r' ∉ old.toList) (hnew : '\r' ∉ new.toList) :
    ∃ hs, Patch.read? oldName.toList newName.toList (unified oldName newName old new).toList =
        some hs ∧
      Patches (Framed (Text.pieces old.toList).length (Text.pieces new.toList).length) 0 0
        (Text.pieces old.toList) hs (Text.pieces new.toList) := by
  have hstand := stand_found (Text.pieces old.toList).toArray (Text.pieces new.toList).toArray
  refine ⟨_, ?_, hstand.patches⟩
  rw [unified_eq oldName newName hold hnew]
  exact read?_printed holdName hnewName (fun _ => isLine_of_mem_pieces hold)
    (fun _ => isLine_of_mem_pieces hnew) hstand.ne_nil

theorem unified_eq_empty_iff {oldName newName old new : String} (hold : '\r' ∉ old.toList)
    (hnew : '\r' ∉ new.toList) : unified oldName newName old new = "" ↔ old = new := by
  have hsame : (Text.pieces old.toList).toArray = (Text.pieces new.toList).toArray ↔ old = new := by
    constructor
    · intro heq
      have hflat := congrArg (fun ls => ls.toList.flatten) heq
      dsimp only at hflat
      rw [Text.flatten_pieces, Text.flatten_pieces] at hflat
      exact String.toList_inj.1 hflat
    · exact fun heq => heq ▸ rfl
  rw [unified_eq oldName newName hold hnew, ← hsame, ← found_eq_nil_iff, printed]
  split
  · next hnone => exact iff_of_true rfl hnone
  · next hsome =>
    refine iff_of_false (fun hempty => ?_) hsome
    have hlist := congrArg String.toList hempty
    simp at hlist

end LintHooks.Diff
