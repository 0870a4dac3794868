import LintHooks.Hook.Verdict
import LintHooks.Proofs.Text.Basic
import LintHooks.Proofs.Text.Lines
set_option autoImplicit false

/-!
# Hooks: output without noise

cppcheck complains about headers that it has not been shown.  The lines that do so are taken out of
its output and all others stay, line feeds included, so that what is left has none of them and a
second pass finds nothing to take out.

The main result is `cleaned_cppcheck`.  It needs a second pass to find nothing
(`withoutPhrase_withoutPhrase`), and that is so since what is left has the pieces that were kept
(`inPieces_withoutPhrase`): joining pieces makes no new ones.  For the same reason the complaint
does not occur in the whole either (`Text.InPieces.exists_infix`).
-/

namespace LintHooks

/-- What has no line feed and occurs in a text occurs in one of its pieces. -/
theorem Text.InPieces.exists_infix {s needle : List Char} {ps : List (List Char)}
    (h : InPieces s ps) (hne : needle ≠ []) (hline : '\n' ∉ needle) (hin : needle <:+: s) :
    ∃ p ∈ ps, needle <:+: p := by
  induction h with
  | nil => exact absurd (List.infix_nil.1 hin) hne
  | unended _ _ => exact ⟨_, List.mem_cons_self, hin⟩
  | ended _ _ ih =>
    rcases infix_append_cons hline hin with hfirst | hrest
    · exact ⟨_, List.mem_cons_self, hfirst.trans (List.prefix_append _ _).isInfix⟩
    · obtain ⟨p, hp, hin⟩ := ih hrest
      exact ⟨p, List.mem_cons_of_mem _ hp, hin⟩

namespace Hook

variable {phrase s : String} {ps : List (List Char)}

theorem withoutPhrase_eq (h : Text.InPieces s.toList ps) :
    withoutPhrase phrase s =
      String.ofList (ps.filter fun p => ¬ phrase.toList <:+: p).flatten := by
  have hkeep : (fun p => !Text.occurs phrase.toList p) = fun p => ¬ phrase.toList <:+: p := by
    funext p
    rw [Bool.eq_iff_iff, Bool.not_eq_true', ← Bool.not_eq_true, Text.occurs_iff]
    exact decide_eq_true_iff.symm
  rw [withoutPhrase, h.pieces_eq, hkeep]

theorem inPieces_withoutPhrase (phrase s : String) :
    ∃ ps, Text.InPieces (withoutPhrase phrase s).toList ps ∧ ∀ p ∈ ps, ¬ phrase.toList <:+: p := by
  have hpieces := Text.inPieces_pieces s.toList
  refine ⟨(Text.pieces s.toList).filter fun p => ¬ phrase.toList <:+: p, ?_, fun p hp => ?_⟩
  · rw [withoutPhrase_eq hpieces, String.toList_ofList]
    exact hpieces.filter _
  · exact of_decide_eq_true (List.mem_filter.1 hp).2

theorem withoutPhrase_withoutPhrase (phrase s : String) :
    withoutPhrase phrase (withoutPhrase phrase s) = withoutPhrase phrase s := by
  obtain ⟨ps, hps, hkept⟩ := inPieces_withoutPhrase phrase s
  have hall : (ps.filter fun p => ¬ phrase.toList <:+: p) = ps :=
    List.filter_eq_self.2 fun p hp => decide_eq_true (hkept p hp)
  rw [withoutPhrase_eq hps, hall, ← hps.pieces_eq, Text.flatten_pieces, String.ofList_toList]

/-- cppcheck's errors are left with the pieces that do not complain about missing headers, each as
it was and in the same order.  Nothing else changes, the verdict is a matter of the exit status, and
no complaint comes from what is joined. -/
theorem cleaned_cppcheck (o : ProcessOutput) :
    (∃ ps, Text.InPieces o.stderr.toList ps ∧
      Hook.cppcheck.cleaned o = { o with
        stderr := String.ofList (ps.filter fun p => ¬ missingIncludes.toList <:+: p).flatten }) ∧
    ¬ missingIncludes.toList <:+: (Hook.cppcheck.cleaned o).stderr.toList ∧
    (Hook.cppcheck.failed o = true ↔ o.exitCode ≠ 0) ∧
    Hook.cppcheck.cleaned (Hook.cppcheck.cleaned o) = Hook.cppcheck.cleaned o := by
  have hpieces := Text.inPieces_pieces o.stderr.toList
  refine ⟨⟨_, hpieces, ?_⟩, fun hin => ?_, ?_, ?_⟩
  · rw [← withoutPhrase_eq hpieces]
    rfl
  · obtain ⟨ps, hps, hkept⟩ := inPieces_withoutPhrase missingIncludes o.stderr
    obtain ⟨p, hp, hin⟩ := hps.exists_infix (by decide) (by decide) hin
    exact hkept p hp hin
  · have hfailed : Hook.cppcheck.failed o = !o.success := rfl
    rw [hfailed, ProcessOutput.success, Bool.not_eq_true', beq_eq_false_iff_ne]
  · change { o with stderr := withoutPhrase _ (withoutPhrase _ o.stderr) } = _
    rw [withoutPhrase_withoutPhrase]
    rfl

/-- The complaint goes with its line feed, and the last line stays without one. -/
example : withoutPhrase "no header" "a\nx: no header\nb" = "a\nb" := by decide

end Hook

end LintHooks
