import LintHooks.Proofs.Diff.Meeting
set_option autoImplicit false

/-!
# Diffs: where a script leads

Each step of a script leads from a place in both sequences to another one, and a script leads from
the beginning of both to their ends.  A step need not know its place in the sequence that it takes
no lines from: that of a removal in the new sequence and of an addition in the old one may be
anything.

The main result is `leads_script`.  A path is composed of paths (`leads_append`), and a window is
cut into three of them: lines at its beginning and at its end that agree (`agree_agreeAhead`,
`agree_agreeBehind`), and what is left between (`leads_of_core`).  What is left is either exchanged
as a whole (`leads_exchange`), or cut once more where the shortest paths meet, a point which is in
it by `middle?_mem` (`leads_coreScript`).  The induction of `leads_scriptOf` is on how often windows
may be cut.  The other result is `script_self`, for texts that do not differ.
-/

namespace LintHooks.Diff

/-! ## Paths -/

/-- The steps of a path lead from one place in both sequences to another one. -/
def Leads {σ : Type} (moves : σ → Nat → Nat → Nat → Nat → Prop) :
    Nat → Nat → List σ → Nat → Nat → Prop
  | i, j, [], i', j' => i = i' ∧ j = j'
  | i, j, s :: ss, i', j' => ∃ p q, moves s i j p q ∧ Leads moves p q ss i' j'

section Paths

variable {σ : Type} {moves : σ → Nat → Nat → Nat → Nat → Prop} {i j i' j' : Nat}

theorem Leads.nil : Leads moves i j [] i j := ⟨rfl, rfl⟩

theorem leads_cons {s : σ} {ss : List σ} :
    Leads moves i j (s :: ss) i' j' ↔ ∃ p q, moves s i j p q ∧ Leads moves p q ss i' j' := Iff.rfl

theorem leads_single {s : σ} : Leads moves i j [s] i' j' ↔ moves s i j i' j' := by
  rw [leads_cons]
  constructor
  · rintro ⟨p, q, hs, rfl, rfl⟩
    exact hs
  · exact fun hs => ⟨i', j', hs, .nil⟩

theorem leads_append {ss ts : List σ} : Leads moves i j (ss ++ ts) i' j' ↔
    ∃ p q, Leads moves i j ss p q ∧ Leads moves p q ts i' j' := by
  induction ss generalizing i j with
  | nil =>
    constructor
    · exact fun h => ⟨i, j, .nil, h⟩
    · rintro ⟨p, q, ⟨rfl, rfl⟩, h⟩
      exact h
  | cons s ss ih =>
    rw [List.cons_append, leads_cons]
    constructor
    · rintro ⟨p, q, hs, hrest⟩
      obtain ⟨p', q', hss, hts⟩ := ih.1 hrest
      exact ⟨p', q', ⟨p, q, hs, hss⟩, hts⟩
    · rintro ⟨p', q', ⟨p, q, hs, hss⟩, hts⟩
      exact ⟨p, q, hs, ih.2 ⟨p', q', hss, hts⟩⟩

theorem Leads.concat {s : σ} {ss : List σ} {p q : Nat} (h : Leads moves i j ss p q)
    (hs : moves s p q i' j') : Leads moves i j (ss ++ [s]) i' j' :=
  leads_append.2 ⟨p, q, h, leads_single.2 hs⟩

end Paths

variable {α : Type} {old new : Array α} {i j i' j' : Nat}

/-- From two places on some lines are the same. -/
def Agree (old new : Array α) (i j count : Nat) : Prop := ∀ t < count, old[i + t]? = new[j + t]?

theorem Agree.append {c d : Nat} (hc : Agree old new i j c) (hd : Agree old new (i + c) (j + c) d) :
    Agree old new i j (c + d) := by
  intro t ht
  rcases Nat.lt_or_ge t c with hlt | hge
  · exact hc t hlt
  · have := hd (t - c) (by omega)
    rwa [Nat.add_assoc, Nat.add_assoc, Nat.add_sub_cancel' hge] at this

theorem Agree.zero : Agree old new i j 0 := fun t ht => absurd ht (Nat.not_lt_zero t)

theorem Agree.mono {c d : Nat} (hle : d ≤ c) (h : Agree old new i j c) : Agree old new i j d :=
  fun t ht => h t (Nat.lt_of_lt_of_le ht hle)

theorem Agree.drop {c d : Nat} (h : Agree old new i j (c + d)) :
    Agree old new (i + c) (j + c) d := by
  intro t ht
  have := h (c + t) (by omega)
  rwa [← Nat.add_assoc, ← Nat.add_assoc] at this

/-- Where a step of a script leads. -/
inductive Edit.Moves (old new : Array α) : Edit → Nat → Nat → Nat → Nat → Prop where
  | keep {i j c : Nat} : 0 < c → Agree old new i j c →
    Moves old new ⟨.keep, i, j, c⟩ i j (i + c) (j + c)
  | remove {i j c : Nat} (y : Nat) : 0 < c → Moves old new ⟨.remove, i, y, c⟩ i j (i + c) j
  | add {i j c : Nat} (x : Nat) : 0 < c → Moves old new ⟨.add, x, j, c⟩ i j i (j + c)

theorem leads_step_keep {c : Nat} (h : Agree old new i j c) :
    Leads (Edit.Moves old new) i j (step .keep i j c) (i + c) (j + c) := by
  rw [step]
  split
  · next hc => exact ⟨by omega, by omega⟩
  · next hc => exact leads_single.2 (.keep (Nat.pos_of_ne_zero hc) h)

/-- A window can always be changed by removing all old lines and adding all new ones. -/
theorem leads_exchange (w : Window) (hold : w.oldStart ≤ w.oldStop)
    (hnew : w.newStart ≤ w.newStop) :
    Leads (Edit.Moves old new) w.oldStart w.newStart
      (step .remove w.oldStart w.newStart w.oldSize ++ step .add w.oldStart w.newStart w.newSize)
      w.oldStop w.newStop := by
  have hold' : w.oldStart + w.oldSize = w.oldStop := Nat.add_sub_cancel' hold
  have hnew' : w.newStart + w.newSize = w.newStop := Nat.add_sub_cancel' hnew
  refine leads_append.2 ⟨w.oldStop, w.newStart, ?_, ?_⟩
  · rw [step]
    split
    · next hc => exact ⟨by omega, rfl⟩
    · next hc => exact hold' ▸ leads_single.2 (.remove _ (Nat.pos_of_ne_zero hc))
  · rw [step]
    split
    · next hc => exact ⟨rfl, by omega⟩
    · next hc => exact hnew' ▸ leads_single.2 (.add _ (Nat.pos_of_ne_zero hc))

/-! ## The search -/

section Search

variable [DecidableEq α]

theorem agree_agreeAhead (old new : Array α) (i j bound : Nat) :
    Agree old new i j (agreeAhead old new i j bound) := by
  induction bound generalizing i j with
  | zero => exact .zero
  | succ bound ih =>
    rw [agreeAhead]
    split
    · next hsame =>
      intro t ht
      cases t with
      | zero => exact hsame
      | succ t =>
        have := ih (i + 1) (j + 1) t (by omega)
        rwa [Nat.add_right_comm, Nat.add_right_comm j] at this
    · exact .zero

theorem agree_agreeBehind {bound : Nat} (hi : bound ≤ i) (hj : bound ≤ j) :
    Agree old new (i - agreeBehind old new i j bound) (j - agreeBehind old new i j bound)
      (agreeBehind old new i j bound) := by
  induction bound generalizing i j with
  | zero => exact .zero
  | succ bound ih =>
    rw [agreeBehind]
    split
    · next hsame =>
      have hle := agreeBehind_le old new (i - 1) (j - 1) bound
      have hbefore := ih (i := i - 1) (j := j - 1) (by omega) (by omega)
      rw [Nat.sub_sub, Nat.sub_sub, Nat.add_comm 1] at hbefore
      refine hbefore.append fun t ht => ?_
      obtain rfl : t = 0 := by omega
      have hi : i - (agreeBehind old new (i - 1) (j - 1) bound + 1) +
          agreeBehind old new (i - 1) (j - 1) bound = i - 1 := by omega
      have hj : j - (agreeBehind old new (i - 1) (j - 1) bound + 1) +
          agreeBehind old new (i - 1) (j - 1) bound = j - 1 := by omega
      rwa [hi, hj]
    · exact .zero

/-- How many lines at the beginning of a window agree. -/
def Window.front (old new : Array α) (w : Window) : Nat :=
  agreeAhead old new w.oldStart w.newStart (min w.oldSize w.newSize)

/-- A window without the lines at its beginning that agree. -/
def Window.inner (old new : Array α) (w : Window) : Window :=
  { w with oldStart := w.oldStart + w.front old new, newStart := w.newStart + w.front old new }

/-- How many lines at the end of a window agree, apart from those at its beginning. -/
def Window.back (old new : Array α) (w : Window) : Nat :=
  agreeBehind old new w.oldStop w.newStop (min (w.inner old new).oldSize (w.inner old new).newSize)

/-- What is left of a window between the lines that agree. -/
def Window.core (old new : Array α) (w : Window) : Window :=
  { w.inner old new with
    oldStop := w.oldStop - w.back old new, newStop := w.newStop - w.back old new }

/-- The steps for what is left of a window. -/
def coreScript (old new : Array α) (depth : Nat) (core : Window) : List Edit :=
  if core.oldSize = 0 ∨ core.newSize = 0 then
    step .remove core.oldStart core.newStart core.oldSize
      ++ step .add core.oldStart core.newStart core.newSize
  else match depth, middle? old new core with
    | depth + 1, some (x, y) =>
      scriptOf old new depth { core with oldStop := x, newStop := y }
        ++ scriptOf old new depth { core with oldStart := x, newStart := y }
    | _, _ =>
      step .remove core.oldStart core.newStart core.oldSize
        ++ step .add core.oldStart core.newStart core.newSize

theorem scriptOf_eq (old new : Array α) (depth : Nat) (w : Window) :
    scriptOf old new depth w =
      step .keep w.oldStart w.newStart (w.front old new)
        ++ coreScript old new depth (w.core old new)
        ++ step .keep (w.core old new).oldStop (w.core old new).newStop (w.back old new) := by
  unfold scriptOf
  rfl

theorem Window.front_le (old new : Array α) (w : Window) :
    w.front old new ≤ min w.oldSize w.newSize :=
  agreeAhead_le _ _ _ _ _

theorem Window.sizes_inner (old new : Array α) (w : Window) :
    (w.inner old new).oldSize = w.oldSize - w.front old new ∧
      (w.inner old new).newSize = w.newSize - w.front old new :=
  ⟨Nat.sub_add_eq _ _ _, Nat.sub_add_eq _ _ _⟩

theorem Window.back_le (old new : Array α) (w : Window) :
    w.back old new ≤ min (w.inner old new).oldSize (w.inner old new).newSize :=
  agreeBehind_le _ _ _ _ _

/-- What stands between lines that agree is left to be changed. -/
theorem leads_of_core {depth : Nat} {w : Window} (hold : w.oldStart ≤ w.oldStop)
    (hnew : w.newStart ≤ w.newStop)
    (hcore : ∀ core : Window, core.oldStart ≤ core.oldStop → core.newStart ≤ core.newStop →
      Leads (Edit.Moves old new) core.oldStart core.newStart (coreScript old new depth core)
        core.oldStop core.newStop) :
    Leads (Edit.Moves old new) w.oldStart w.newStart (scriptOf old new depth w) w.oldStop
      w.newStop := by
  have hfront := w.front_le old new
  have hback := w.back_le old new
  have hsizes := w.sizes_inner old new
  have hwhole : w.oldSize = w.oldStop - w.oldStart ∧ w.newSize = w.newStop - w.newStart :=
    ⟨rfl, rfl⟩
  have hagree : Agree old new (w.oldStop - w.back old new) (w.newStop - w.back old new)
      (w.back old new) := agree_agreeBehind (by omega) (by omega)
  have hinner := hcore (w.core old new) (by rw [Window.core, Window.inner]; dsimp only; omega)
    (by rw [Window.core, Window.inner]; dsimp only; omega)
  have hstop := leads_step_keep hagree
  rw [Nat.sub_add_cancel (by omega), Nat.sub_add_cancel (by omega)] at hstop
  rw [scriptOf_eq]
  exact leads_append.2 ⟨_, _, leads_append.2 ⟨_, _,
    leads_step_keep (agree_agreeAhead old new _ _ _), hinner⟩, hstop⟩

/-- Each half of what is left is a window of its own. -/
theorem leads_coreScript {depth : Nat} {core : Window} (hold : core.oldStart ≤ core.oldStop)
    (hnew : core.newStart ≤ core.newStop)
    (hscript : ∀ (d : Nat) (w : Window), depth = d + 1 → w.oldStart ≤ w.oldStop →
      w.newStart ≤ w.newStop → Leads (Edit.Moves old new) w.oldStart w.newStart
        (scriptOf old new d w) w.oldStop w.newStop) :
    Leads (Edit.Moves old new) core.oldStart core.newStart (coreScript old new depth core)
      core.oldStop core.newStop := by
  rw [coreScript.eq_def]
  split
  · exact leads_exchange core hold hnew
  · split
    · next d x y hmiddle =>
      have hmem := middle?_mem hold hnew hmiddle
      exact leads_append.2 ⟨x, y,
        hscript d { core with oldStop := x, newStop := y } rfl hmem.old.1 hmem.new.1,
        hscript d { core with oldStart := x, newStart := y } rfl hmem.old.2 hmem.new.2⟩
    · exact leads_exchange core hold hnew

/-- The induction is on how often windows are cut. -/
theorem leads_scriptOf (depth : Nat) (w : Window) (hold : w.oldStart ≤ w.oldStop)
    (hnew : w.newStart ≤ w.newStop) :
    Leads (Edit.Moves old new) w.oldStart w.newStart (scriptOf old new depth w) w.oldStop
      w.newStop := by
  induction depth generalizing w with
  | zero => exact leads_of_core hold hnew fun core ho hn => leads_coreScript ho hn nofun
  | succ depth ih =>
    refine leads_of_core hold hnew fun core ho hn => leads_coreScript ho hn ?_
    rintro d w ⟨⟩
    exact ih w

/-- The script of two sequences leads to their ends. -/
theorem leads_script (old new : Array α) :
    Leads (Edit.Moves old new) 0 0 (script old new) old.size new.size :=
  leads_scriptOf _ ⟨0, old.size, 0, new.size⟩ (Nat.zero_le _) (Nat.zero_le _)

theorem agreeAhead_self (s : Array α) (i bound : Nat) : agreeAhead s s i i bound = bound := by
  induction bound generalizing i with
  | zero => rfl
  | succ bound ih => rw [agreeAhead, if_pos rfl, ih]

/-- A sequence becomes itself in one step at most. -/
theorem script_self (s : Array α) : script s s = step .keep 0 0 s.size := by
  have hfront : Window.front s s ⟨0, s.size, 0, s.size⟩ = s.size := by
    rw [Window.front, agreeAhead_self]
    exact Nat.min_self _
  have hback : Window.back s s ⟨0, s.size, 0, s.size⟩ = 0 := by
    have hle := Window.back_le s s ⟨0, s.size, 0, s.size⟩
    have hsizes := Window.sizes_inner s s ⟨0, s.size, 0, s.size⟩
    have hold : Window.oldSize ⟨0, s.size, 0, s.size⟩ = s.size := rfl
    omega
  have hcore : Window.core s s ⟨0, s.size, 0, s.size⟩ = ⟨s.size, s.size, s.size, s.size⟩ := by
    rw [Window.core, Window.inner, hfront, hback, Nat.zero_add, Nat.sub_zero]
  have hempty : Window.oldSize ⟨s.size, s.size, s.size, s.size⟩ = 0 := Nat.sub_self _
  rw [script, scriptOf_eq, hfront, hback, hcore, coreScript.eq_def, if_pos (.inl hempty)]
  dsimp only
  rw [hempty, Window.newSize, Nat.sub_self]
  simp [step]

end Search

end LintHooks.Diff
