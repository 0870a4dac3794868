set_option autoImplicit false

/-!
# Diffs: edit scripts

An edit script tells how one sequence of lines becomes another: which lines are
kept, removed and added, in what order.  The search goes from both ends at once
and cuts the sequences where the two paths meet.
-/

namespace LintHooks.Diff

/-- What a step of a script does with its lines. -/
inductive EditKind where
  | keep | remove | add
  deriving DecidableEq, Repr, Inhabited

/-- A step of a script: what happens, where it stands in the old and in the new sequence, and to
how many lines. -/
structure Edit where
  kind : EditKind
  old : Nat
  new : Nat
  count : Nat
  deriving DecidableEq, Repr, Inhabited

namespace Edit

/-- How many new lines a step covers. -/
def newCount (e : Edit) : Nat := if e.kind = .remove then 0 else e.count

end Edit

/-- A part of both sequences, from the first to before the second bound. -/
structure Window where
  oldStart : Nat
  oldStop : Nat
  newStart : Nat
  newStop : Nat
  deriving DecidableEq, Repr, Inhabited

namespace Window

def oldSize (w : Window) : Nat := w.oldStop - w.oldStart

def newSize (w : Window) : Nat := w.newStop - w.newStart

end Window

variable {α : Type} [DecidableEq α]

/-- How many lines agree from two places on, up to a bound. -/
def agreeAhead (old new : Array α) (i j : Nat) : Nat → Nat
  | 0 => 0
  | bound + 1 => if old[i]? = new[j]? then agreeAhead old new (i + 1) (j + 1) bound + 1 else 0

/-- How many lines agree in front of two places, up to a bound. -/
def agreeBehind (old new : Array α) (i j : Nat) : Nat → Nat
  | 0 => 0
  | bound + 1 =>
    if old[i - 1]? = new[j - 1]? then agreeBehind old new (i - 1) (j - 1) bound + 1 else 0

theorem agreeAhead_le (old new : Array α) (i j bound : Nat) :
    agreeAhead old new i j bound ≤ bound := by
  induction bound generalizing i j with
  | zero => simp [agreeAhead]
  | succ n ih =>
    simp only [agreeAhead]
    split
    · exact Nat.succ_le_succ (ih _ _)
    · omega

theorem agreeBehind_le (old new : Array α) (i j bound : Nat) :
    agreeBehind old new i j bound ≤ bound := by
  induction bound generalizing i j with
  | zero => simp [agreeBehind]
  | succ n ih =>
    simp only [agreeBehind]
    split
    · exact Nat.succ_le_succ (ih _ _)
    · omega

/-! ## The meeting point

A path through the window is a number of steps to the right (removed lines) and
down (added lines), with free diagonals where lines agree.  After `d` steps it is on
a diagonal `k` of the same parity between `-d` and `d`.  A frontier lists how far to
the right the paths of one length get on each diagonal, the greatest diagonal first. -/

/-- How far to the right the paths start on each diagonal, given the frontier one step before. -/
def startsAfter : List Nat → List Nat
  | [] => [0]
  | x :: xs => (x + 1) :: go x xs
where
  go (left : Nat) : List Nat → List Nat
    | [] => [left]
    | x :: xs => (if x < left then left else x + 1) :: go x xs

/-- The path on one diagonal. -/
structure Reach where
  diagonal : Int
  /-- How far to the right it was before its free diagonal. -/
  start : Nat
  /-- How far to the right it is. -/
  stop : Nat
  deriving Repr, Inhabited

/-- How far down a path is on a diagonal. -/
def downOf (x : Nat) (diagonal : Int) : Nat := ((x : Int) - diagonal).toNat

/-- The paths after `d` steps. -/
def reaches (slide : Nat → Nat → Nat) (d : Nat) (frontier : List Nat) : List Reach :=
  (startsAfter frontier).mapIdx fun i x =>
    let diagonal : Int := (d : Int) - 2 * (i : Int)
    { diagonal, start := x, stop := x + slide x (downOf x diagonal) }

/-- The free diagonal from a point of a window, seen from its beginning. -/
def slideAhead (old new : Array α) (w : Window) (x y : Nat) : Nat :=
  agreeAhead old new (w.oldStart + x) (w.newStart + y) (min (w.oldSize - x) (w.newSize - y))

/-- The free diagonal from a point of a window, seen from its end. -/
def slideBehind (old new : Array α) (w : Window) (x y : Nat) : Nat :=
  agreeBehind old new (w.oldStop - x) (w.newStop - y) (min (w.oldSize - x) (w.newSize - y))

/-- How far the paths from the other end get on a diagonal, if their frontier after `d` steps
covers it. -/
def facing? (frontier : List Nat) (d : Int) (delta : Int) (diagonal : Int) : Option Nat :=
  let k := -(diagonal - delta)
  if k.natAbs ≤ d.toNat ∧ 0 ≤ d then frontier[((d - k) / 2).toNat]? else none

/-- Where the paths from both ends meet, after `d` steps or at most `bound` more. -/
def meeting? (old new : Array α) (w : Window) :
    (bound : Nat) → (d : Nat) → (ahead behind : List Nat) → Option (Nat × Nat)
  | 0, _, _, _ => none
  | bound + 1, d, ahead, behind =>
    let n := w.oldSize
    let delta : Int := (w.oldSize : Int) - (w.newSize : Int)
    let odd := delta % 2 ≠ 0
    let forward := reaches (slideAhead old new w) d ahead
    let met := if odd then
        forward.find? fun r =>
          (facing? behind ((d : Int) - 1) delta r.diagonal).any fun x => n ≤ r.stop + x
      else none
    match met with
    | some r => some (w.oldStart + r.start, w.newStart + downOf r.start r.diagonal)
    | none =>
      let ahead := forward.map Reach.stop
      let backward := reaches (slideBehind old new w) d behind
      let met := if odd then none
        else backward.find? fun r =>
          (facing? ahead (d : Int) delta r.diagonal).any fun x => n ≤ r.stop + x
      match met with
      | some r =>
        some (w.oldStop - r.stop, w.newStop - downOf r.stop r.diagonal)
      | none => meeting? old new w bound (d + 1) ahead (backward.map Reach.stop)

/-- Where the shortest paths through a window meet. -/
def middle? (old new : Array α) (w : Window) : Option (Nat × Nat) :=
  meeting? old new w ((w.oldSize + w.newSize + 1) / 2 + 1) 0 [] []

/-! ## Scripts -/

/-- A step, unless it is about no lines. -/
def step (kind : EditKind) (old new count : Nat) : List Edit :=
  if count = 0 then [] else [⟨kind, old, new, count⟩]

/-- The script of a window.  `depth` bounds how often the window is cut. -/
def scriptOf (old new : Array α) : Nat → Window → List Edit
  | depth, w =>
    let front :=
      agreeAhead old new w.oldStart w.newStart (min w.oldSize w.newSize)
    let inner : Window := { w with oldStart := w.oldStart + front, newStart := w.newStart + front }
    let back := agreeBehind old new inner.oldStop inner.newStop (min inner.oldSize inner.newSize)
    let core : Window :=
      { inner with oldStop := inner.oldStop - back, newStop := inner.newStop - back }
    let changes :=
      if core.oldSize = 0 ∨ core.newSize = 0 then
        step .remove core.oldStart core.newStart core.oldSize
          ++ step .add core.oldStart core.newStart core.newSize
      else match depth, middle? old new core with
        | depth + 1, some (x, y) =>
          scriptOf old new depth { core with oldStop := x, newStop := y }
            ++ scriptOf old new depth { core with oldStart := x, newStart := y }
        | _, _ =>
          step .remove core.oldStart core.newStart core.oldSize
            ++ step .add core.oldStart core.newStart core.newSize
    step .keep w.oldStart w.newStart front ++ changes
      ++ step .keep core.oldStop core.newStop back

/-- The script that turns one sequence into another. -/
def script (old new : Array α) : List Edit :=
  scriptOf old new (old.size + new.size) ⟨0, old.size, 0, new.size⟩

end LintHooks.Diff
