import LintHooks.Diff.Script
set_option autoImplicit false

/-!
# Diffs: compact scripts

Steps of one kind that are apart only by chance are brought together: a step walks
up over the steps before it and then down over those after it, and joins what it
meets of its own kind.  An addition can walk over kept lines that agree with its
own; a removal cannot.
-/

namespace LintHooks.Diff

variable {α : Type} [DecidableEq α]

/-- A script with one of its steps singled out.  The steps before it stand nearest first. -/
structure Cursor where
  before : List Edit
  this : Edit
  after : List Edit
  deriving DecidableEq, Repr, Inhabited

/-- The script of a cursor. -/
def Cursor.toList (c : Cursor) : List Edit := c.before.reverse ++ c.this :: c.after

/-- What is left to walk over, counted in steps and lines. -/
def weight : List Edit → Nat
  | [] => 0
  | e :: es => e.count + 1 + weight es

/-- How many lines at the end of a kept step agree with the end of another step. -/
def sharedEnd (old new : Array α) (kept e : Edit) : Nat :=
  agreeBehind old new (kept.old + kept.count) (e.new + e.newCount) (min kept.count e.newCount)

/-- How many lines at the beginning of a kept step agree with the beginning of another step. -/
def sharedStart (old new : Array α) (kept e : Edit) : Nat :=
  agreeAhead old new kept.old e.new (min kept.count e.newCount)

theorem sharedEnd_le (old new : Array α) (kept e : Edit) :
    sharedEnd old new kept e ≤ kept.count :=
  Nat.le_trans (agreeBehind_le _ _ _ _ _) (Nat.min_le_left _ _)

theorem sharedStart_le (old new : Array α) (kept e : Edit) :
    sharedStart old new kept e ≤ kept.count :=
  Nat.le_trans (agreeAhead_le _ _ _ _ _) (Nat.min_le_left _ _)

/-- The steps after a step, with `n` kept lines more in front. -/
def keepBefore (kept e : Edit) (n : Nat) : List Edit → List Edit
  | next :: rest =>
    if next.kind = .keep then
      { next with old := next.old - n, new := next.new - n, count := next.count + n } :: rest
    else ⟨.keep, kept.old + kept.count - n, e.new + e.newCount - n, n⟩ :: next :: rest
  | [] => [⟨.keep, kept.old + kept.count - n, e.new + e.newCount - n, n⟩]

/-- The steps before a step, nearest first, with `n` kept lines more at the end. -/
def keepAfter (kept e : Edit) (n : Nat) : List Edit → List Edit
  | prev :: rest =>
    if prev.kind = .keep then { prev with count := prev.count + n } :: rest
    else ⟨.keep, kept.old, e.new, n⟩ :: prev :: rest
  | [] => [⟨.keep, kept.old, e.new, n⟩]

/-- A step moved up by some lines. -/
def Edit.moveUp (e : Edit) (n : Nat) : Edit := { e with old := e.old - n, new := e.new - n }

/-- A step moved down by some lines. -/
def Edit.moveDown (e : Edit) (n : Nat) : Edit := { e with old := e.old + n, new := e.new + n }

/-- Walks the singled-out step up. -/
def walkUp (old new : Array α) (e : Edit) (after : List Edit) : List Edit → Cursor
  | [] => ⟨[], e, after⟩
  | prev :: before =>
    if prev.kind = .keep then
      let shared := sharedEnd old new prev e
      if _h : 0 < shared then
        have _bounded : shared ≤ prev.count := sharedEnd_le old new prev e
        let after := keepBefore prev e shared after
        if prev.count = shared then walkUp old new (e.moveUp shared) after before
        else
          walkUp old new (e.moveUp shared) after
            ({ prev with count := prev.count - shared } :: before)
      else if prev.count = 0 then walkUp old new e after before
      else ⟨prev :: before, e, after⟩
    else if prev.kind = e.kind then
      walkUp old new { prev with count := prev.count + e.count } after before
    else walkUp old new e (prev :: after) before
termination_by before => weight before
decreasing_by all_goals simp_all [weight] <;> omega

/-- Walks the singled-out step down. -/
def walkDown (old new : Array α) (before : List Edit) (e : Edit) : List Edit → Cursor
  | [] => ⟨before, e, []⟩
  | next :: after =>
    if next.kind = .keep then
      let shared := sharedStart old new next e
      if _h : 0 < shared then
        have _bounded : shared ≤ next.count := sharedStart_le old new next e
        let before := keepAfter next e shared before
        if next.count = shared then walkDown old new before (e.moveDown shared) after
        else
          walkDown old new before (e.moveDown shared)
            ({ next.moveDown shared with count := next.count - shared } :: after)
      else if next.count = 0 then walkDown old new before e after
      else ⟨before, e, next :: after⟩
    else if next.kind = e.kind then
      walkDown old new before { e with count := e.count + next.count } after
    else walkDown old new (next :: before) e after
termination_by after => weight after
decreasing_by all_goals simp_all [weight] <;> omega

/-- Walks every step of a kind, from the beginning of the script on.  `bound` bounds how often. -/
def compactFrom (old new : Array α) (kind : EditKind) :
    (bound : Nat) → (before after : List Edit) → List Edit
  | 0, before, after => before.reverse ++ after
  | _ + 1, before, [] => before.reverse
  | bound + 1, before, e :: after =>
    if e.kind = kind then
      let up := walkUp old new e after before
      let down := walkDown old new up.before up.this up.after
      compactFrom old new kind bound (down.this :: down.before) down.after
    else compactFrom old new kind bound (e :: before) after

/-- A script made compact: the removals first, then the additions. -/
def compact (old new : Array α) (es : List Edit) : List Edit :=
  let removed := compactFrom old new .remove (2 * weight es) [] es
  compactFrom old new .add (2 * weight removed) [] removed

end LintHooks.Diff
