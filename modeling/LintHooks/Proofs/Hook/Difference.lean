import LintHooks.Hook.Formatting
import LintHooks.Proofs.Diff.Unified
set_option autoImplicit false

/-!
# Hooks: the printed difference as a patch

Read as a patch, the difference that is printed for a file takes its text to the formatted one.  The
heading of a hunk is right where kept lines start and stop it.  Compacting lets removals and
additions change places without a new look at where they stand, so that a hunk at the beginning or
at the end of both texts can have a heading that a patch program does not accept.

The main result is `formatDiff_patches`, put together from what is known of any diff
(`read?_unified`, `unified_eq_empty_iff`) and of any hunks that are framed
(`patched?_iff_of_framed`).  `formatDiff_stale` is a difference with a heading that is not right: it
cannot be applied.
-/

namespace LintHooks.Hook

open Diff.Patch (read? patched? Patches Framed EndsRight)

theorem formatDiff_eq (file text formatted : String) :
    formatDiff file text formatted = file ++ "\n====================\n" ++
      Diff.unified "original" "formatted" text formatted ++ "\n" := by
  have hline : "\n====================\n" = "\n" ++ Text.repeated 20 "=" ++ "\n" := by decide
  rw [formatDiff, hline, ← String.append_assoc, ← String.append_assoc]

theorem eq_unified {file text formatted diff : String}
    (h : formatDiff file text formatted = file ++ "\n====================\n" ++ diff ++ "\n") :
    diff = Diff.unified "original" "formatted" text formatted := by
  rw [formatDiff_eq, String.append_left_inj, String.append_right_inj] at h
  exact h.symm

/-- The difference is empty for equal texts only.  Its hunks take the text line by line to the
formatted one, and can be applied by their headings if and only if those are right about the ends of
both texts. -/
theorem formatDiff_patches (file : String) {text formatted : String} (htext : '\r' ∉ text.toList)
    (hformatted : '\r' ∉ formatted.toList) :
    ∃ diff hs, formatDiff file text formatted = file ++ "\n====================\n" ++ diff ++ "\n" ∧
      (diff = "" ↔ text = formatted) ∧
      read? "original".toList "formatted".toList diff.toList = some hs ∧
      Patches (Framed (Text.pieces text.toList).length (Text.pieces formatted.toList).length) 0 0
        (Text.pieces text.toList) hs (Text.pieces formatted.toList) ∧
      (patched? hs (Text.pieces text.toList) = some (Text.pieces formatted.toList) ↔ ∀ h ∈ hs,
        EndsRight (Text.pieces text.toList).length (Text.pieces formatted.toList).length h) := by
  have holdName : '\n' ∉ "original".toList := by decide
  have hnewName : '\n' ∉ "formatted".toList := by decide
  obtain ⟨hs, hread, hpatches⟩ := Diff.read?_unified holdName hnewName htext hformatted
  exact ⟨_, hs, formatDiff_eq file text formatted, Diff.unified_eq_empty_iff htext hformatted,
    hread, hpatches, Diff.Patch.patched?_iff_of_framed hpatches⟩

/-- The last line of a file loses a blank and its line feed. -/
theorem formatDiff_patches_unended : ∃ diff hs,
    formatDiff "a.c" "int x;\nint y ;\n" "int x;\nint y;" =
      "a.c" ++ "\n====================\n" ++ diff ++ "\n" ∧
      read? "original".toList "formatted".toList diff.toList = some hs ∧
      patched? hs (Text.pieces "int x;\nint y ;\n".toList) =
        some (Text.pieces "int x;\nint y;".toList) := by
  obtain ⟨diff, hs, hdiff, -, hread, -, happly⟩ := formatDiff_patches "a.c"
    (show '\r' ∉ "int x;\nint y ;\n".toList by decide)
    (show '\r' ∉ "int x;\nint y;".toList by decide)
  refine ⟨diff, hs, hdiff, hread, happly.2 ?_⟩
  have hhunks : read? "original".toList "formatted".toList
      (Diff.unified "original" "formatted" "int x;\nint y ;\n" "int x;\nint y;").toList =
      some [⟨⟨0, 2⟩, ⟨0, 2⟩, [(.kept, "int x;\n".toList), (.removed, "int y ;\n".toList),
        (.added, "int y;".toList)]⟩] := by decide +kernel
  rw [eq_unified hdiff, hhunks] at hread
  intro h hh
  rw [← Option.some.inj hread, List.mem_singleton] at hh
  rw [hh]
  exact ⟨fun hother => absurd rfl hother, fun _ => by decide +kernel⟩

/-- An addition that goes behind a removal and the kept line after it leaves both with stale places:
the heading has one line in each text where the hunk has two, and the new one is the second. -/
theorem formatDiff_stale : ¬ ∃ diff hs,
    formatDiff "main.cpp" "a\nb\n" "b\nb\n" =
      "main.cpp" ++ "\n====================\n" ++ diff ++ "\n" ∧
      read? "original".toList "formatted".toList diff.toList = some hs ∧
      patched? hs (Text.pieces "a\nb\n".toList) = some (Text.pieces "b\nb\n".toList) := by
  rintro ⟨diff, hs, hdiff, hread, happly⟩
  have hprinted : Diff.unified "original" "formatted" "a\nb\n" "b\nb\n" =
      "--- original\n+++ formatted\n@@ -1 +2 @@\n-a\n b\n+b\n" := by decide +kernel
  have hhunks : read? "original".toList "formatted".toList
      "--- original\n+++ formatted\n@@ -1 +2 @@\n-a\n b\n+b\n".toList =
      some [⟨⟨0, 1⟩, ⟨1, 1⟩, [(.removed, "a\n".toList), (.kept, "b\n".toList),
        (.added, "b\n".toList)]⟩] := by decide +kernel
  rw [eq_unified hdiff, hprinted, hhunks] at hread
  rw [← Option.some.inj hread] at happly
  revert happly
  decide +kernel

end LintHooks.Hook
