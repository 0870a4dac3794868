import LintHooks.Diff.Unified
import LintHooks.Proofs.Diff.Compact
set_option autoImplicit false

/-!
# Diffs: where hunks stand

Hunks stand in both sequences one after the other, with lines between them that agree.  A run of
kept lines knows its places in both.  A change between two runs knows its place only in a sequence
that it takes lines from, so that a hunk knows where it starts and stops if kept lines stand there.

The main statement is `stand_hunks`: the hunks of changes that lead from the beginning of both
sequences to their ends `Stand` there, one behind the other, each in its place (`Spans`).  That the
changes lead where their script has led is `leads_changes`.  Grouping is followed by induction on
the changes that are left (`stand_hunksFrom`), with what is pending as the invariant: it `Starts`
with kept lines or at the beginning, and when a hunk is closed it `Stops` with kept lines or at the
end.  Trimming these lines moves a place in both sequences alike (`leads_trimFirst`,
`leads_trimLast`).
-/

namespace LintHooks.Diff

variable {α : Type} {old new : Array α} {i j i' j' p q c d g : Nat} {es : List Edit}
  {cs hunk : List Change}

/-! ## Changes -/

/-- Where a change leads. -/
inductive Change.Moves (old new : Array α) : Change → Nat → Nat → Nat → Nat → Prop where
  | keep {i j c : Nat} : 0 < c → Agree old new i j c →
    Moves old new (.keep i j c) i j (i + c) (j + c)
  | replace {i j o c n d : Nat} : 0 < c ∨ 0 < d → (0 < c → o = i) → (0 < d → n = j) →
    Moves old new (.replace o c n d) i j (i + c) (j + d)

/-- The pending step of a kind is about so many lines from a place on. -/
def Covers (place : Edit → Nat) : Option Edit → Nat → Nat → Prop
  | none, _, count => count = 0
  | some e, start, count => place e = start ∧ e.count = count ∧ 0 < count

theorem covers_extend {place : Edit → Nat} {e : Option Edit} {more : Edit}
    (hplace : ∀ (e : Edit) (n : Nat), place { e with count := n } = place e)
    (h : Covers place e i c) (hmore : place more = i + c) (hn : 0 < more.count) :
    Covers place (some (Pending.extend e more)) i (c + more.count) := by
  cases e with
  | none =>
    obtain rfl : c = 0 := h
    exact ⟨hmore, (Nat.zero_add _).symm, Nat.add_pos_right 0 hn⟩
  | some e =>
    obtain ⟨hstart, hcount, hc⟩ := h
    exact ⟨(hplace e _).trans hstart, congrArg (· + more.count) hcount, Nat.add_pos_left hc _⟩

theorem leads_change {pending : Pending} (hremoved : Covers Edit.old pending.removed i c)
    (hadded : Covers Edit.new pending.added j d) :
    Leads (Change.Moves old new) i j pending.change (i + c) (j + d) := by
  obtain ⟨removed, added⟩ := pending
  cases removed with
  | none =>
    obtain rfl : c = 0 := hremoved
    cases added with
    | none =>
      obtain rfl : d = 0 := hadded
      exact .nil
    | some a =>
      obtain ⟨rfl, rfl, hd⟩ := hadded
      exact leads_single.2 (.replace (.inr hd) (fun h => absurd h (Nat.lt_irrefl 0)) fun _ => rfl)
  | some r =>
    obtain ⟨rfl, rfl, hc⟩ := hremoved
    cases added with
    | none =>
      obtain rfl : d = 0 := hadded
      exact leads_single.2 (.replace (.inl hc) (fun _ => rfl) fun h => absurd h (Nat.lt_irrefl 0))
    | some a =>
      obtain ⟨rfl, rfl, -⟩ := hadded
      exact leads_single.2 (.replace (.inl hc) (fun _ => rfl) fun _ => rfl)

/-- What is pending has led to where the rest of the script begins. -/
theorem leads_changesFrom (pending : Pending) (hremoved : Covers Edit.old pending.removed i c)
    (hadded : Covers Edit.new pending.added j d)
    (h : Leads (Edit.Moves old new) (i + c) (j + d) es i' j') :
    Leads (Change.Moves old new) i j (changesFrom pending es) i' j' := by
  induction es generalizing pending i j c d with
  | nil =>
    obtain ⟨rfl, rfl⟩ := h
    exact leads_change hremoved hadded
  | cons e es ih =>
    obtain ⟨_, _, hmoves, hrest⟩ := h
    rw [changesFrom]
    cases hmoves with
    | remove y hn =>
      rw [Nat.add_assoc] at hrest
      exact ih _ (covers_extend (fun _ _ => rfl) hremoved rfl hn) hadded hrest
    | add x hn =>
      rw [Nat.add_assoc] at hrest
      exact ih _ hremoved (covers_extend (fun _ _ => rfl) hadded rfl hn) hrest
    | @keep _ _ n hn hagree =>
      refine leads_append.2 ⟨_, _, leads_change hremoved hadded, ?_⟩
      have hafter :
          Leads (Change.Moves old new) (i + c + n) (j + d + n) (changesFrom {} es) i' j' :=
        ih {} (c := 0) (d := 0) rfl rfl hrest
      generalize changesFrom {} es = cs at hafter
      dsimp only
      -- Two runs of kept lines become one.
      split
      · obtain ⟨_, _, hfirst, hmore⟩ := hafter
        cases hfirst with
        | keep hc hsame =>
          rw [Nat.add_assoc (i + c), Nat.add_assoc (j + d)] at hmore
          exact ⟨_, _, .keep (Nat.add_pos_left hn _) (hagree.append hsame), hmore⟩
      · exact ⟨_, _, .keep hn hagree, hafter⟩

/-- The changes of a script lead where it leads. -/
theorem leads_changes (h : Leads (Edit.Moves old new) 0 0 es i' j') :
    Leads (Change.Moves old new) 0 0 (changes es) i' j' :=
  leads_changesFrom {} (c := 0) (d := 0) rfl rfl h

/-! ## Hunks -/

def Change.isKeep : Change → Bool
  | .keep .. => true
  | .replace .. => false

/-- Changes start with kept lines, unless they start at the beginning of both sequences. -/
def Starts (cs : List Change) (i j : Nat) : Prop :=
  cs.head?.any Change.isKeep = true ∨ i = 0 ∧ j = 0

/-- Changes stop with kept lines, unless they stop at the end of both sequences. -/
def Stops (old new : Array α) (cs : List Change) (i j : Nat) : Prop :=
  cs.getLast?.any Change.isKeep = true ∨ i = old.size ∧ j = new.size

/-- Where a hunk stands. -/
structure Spans (old new : Array α) (hunk : List Change) (i j i' j' : Nat) : Prop where
  ne : hunk ≠ []
  leads : Leads (Change.Moves old new) i j hunk i' j'
  starts : Starts hunk i j
  stops : Stops old new hunk i' j'

/-- Hunks stand one after the other from a place on, and what is not in them agrees. -/
inductive Stand (old new : Array α) : Nat → Nat → List (List Change) → Prop where
  | nil {i j g : Nat} : Agree old new i j g → i + g = old.size → j + g = new.size →
    Stand old new i j []
  | cons {i j g p q : Nat} {hunk : List Change} {hs : List (List Change)} : Agree old new i j g →
    Spans old new hunk (i + g) (j + g) p q → Stand old new p q hs → Stand old new i j (hunk :: hs)

theorem Stand.behind {hs : List (List Change)} (hagree : Agree old new i j g)
    (h : Stand old new (i + g) (j + g) hs) : Stand old new i j hs := by
  cases h with
  | nil hsame hold hnew =>
    rw [Nat.add_assoc] at hold hnew
    exact .nil (hagree.append hsame) hold hnew
  | cons hsame hspans hrest =>
    rw [Nat.add_assoc, Nat.add_assoc] at hspans
    exact .cons (hagree.append hsame) hspans hrest

theorem starts_of_append {x y : Change} {cs' : List Change}
    (hkeep : x.isKeep = true → y.isKeep = true) (h : Starts (hunk ++ x :: cs) i j) :
    Starts (hunk ++ y :: cs') i j := by
  cases hunk with
  | nil => exact h.imp_left hkeep
  | cons first hunk => exact h

theorem stops_of_append {x y : Change} (hunk' : List Change)
    (hkeep : x.isKeep = true → y.isKeep = true) (h : Stops old new (hunk ++ x :: cs) i j) :
    Stops old new (hunk' ++ y :: cs) i j := by
  rw [Stops, List.getLast?_append, List.getLast?_cons, Option.some_or] at h ⊢
  cases hcs : cs.getLast? with
  | none =>
    rw [hcs] at h
    exact h.imp_left hkeep
  | some last =>
    rw [hcs] at h
    exact h

/-! ### Runs that are cut -/

theorem moves_lastOf (hc : 0 < c) (hagree : Agree old new i j c) :
    Change.Moves old new (lastOf i j c) (i + (c - context)) (j + (c - context))
      (i + c) (j + c) := by
  have hcut : c - context + (c - (c - context)) = c := by omega
  have hdrop : Agree old new (i + (c - context)) (j + (c - context)) (c - (c - context)) :=
    Agree.drop (by rwa [hcut])
  have hmoves := Change.Moves.keep (by rw [context]; omega) hdrop
  rwa [Nat.add_assoc, Nat.add_assoc, hcut] at hmoves

theorem moves_take {n : Nat} (hn : 0 < n) (hle : n ≤ c) (hagree : Agree old new i j c) :
    Change.Moves old new (.keep i j n) i j (i + n) (j + n) :=
  .keep hn (hagree.mono hle)

theorem leads_trimFirst (h : Leads (Change.Moves old new) 0 0 cs i' j') :
    ∃ g, Agree old new 0 0 g ∧ Leads (Change.Moves old new) g g (trimFirst cs) i' j' ∧
      Starts (trimFirst cs) g g := by
  cases cs with
  | nil => exact ⟨0, .zero, h, .inr ⟨rfl, rfl⟩⟩
  | cons first cs =>
    cases first with
    | replace o c n d => exact ⟨0, .zero, h, .inr ⟨rfl, rfl⟩⟩
    | keep o n c =>
      obtain ⟨_, _, hfirst, hrest⟩ := h
      cases hfirst with
      | keep hc hagree =>
        have hlast := moves_lastOf hc hagree
        rw [Nat.zero_add (c - context)] at hlast
        exact ⟨c - context, hagree.mono (Nat.sub_le _ _), ⟨_, _, hlast, hrest⟩, .inl rfl⟩

theorem trimLast_append (cs : List Change) (last : Change) :
    trimLast (cs ++ [last]) = cs ++ [match last with
      | .keep o n c => .keep o n (min c context)
      | last => last] := by
  rw [trimLast, List.reverse_append, List.reverse_singleton, List.singleton_append]
  cases last with
  | keep o n c =>
    dsimp only
    rw [List.reverse_cons, List.reverse_reverse]
  | replace o c n d => rfl

theorem leads_trimLast (h : Leads (Change.Moves old new) i j cs old.size new.size)
    (hstarts : Starts cs i j) :
    ∃ p q, Leads (Change.Moves old new) i j (trimLast cs) p q ∧ Starts (trimLast cs) i j ∧
      Stops old new (trimLast cs) p q ∧ Stand old new p q [] := by
  have hend : Stand old new old.size new.size [] := .nil .zero rfl rfl
  rcases List.eq_nil_or_concat cs with rfl | ⟨cs, last, rfl⟩
  · exact ⟨_, _, h, hstarts, .inr ⟨rfl, rfl⟩, hend⟩
  · rw [List.concat_eq_append] at h hstarts ⊢
    rw [trimLast_append]
    cases last with
    | replace o c n d => exact ⟨_, _, h, hstarts, .inr ⟨rfl, rfl⟩, hend⟩
    | keep o n c =>
      obtain ⟨p, q, hcs, hlast⟩ := leads_append.1 h
      rw [leads_single] at hlast
      generalize hp : old.size = i' at hlast hend
      generalize hq : new.size = j' at hlast hend
      cases hlast with
      | keep hc hagree =>
        have hle : min c context ≤ c := Nat.min_le_left ..
        have hcut : min c context + (c - min c context) = c := Nat.add_sub_cancel' hle
        have hpos : 0 < min c context := by
          rw [context]
          omega
        refine ⟨_, _, hcs.concat (moves_take hpos hle hagree),
          starts_of_append (fun _ => rfl) hstarts, .inl ?_, .nil (Agree.drop (hcut ▸ hagree)) ?_ ?_⟩
        · rw [List.getLast?_concat]
          rfl
        · rw [hp, Nat.add_assoc, hcut]
        · rw [hq, Nat.add_assoc, hcut]

/-! ### Cutting -/

theorem not_worthShowing (h : worthShowing cs = false) : cs = [] ∨ ∃ o n c, cs = [.keep o n c] := by
  rw [worthShowing.eq_def] at h
  split at h
  · exact .inl rfl
  · exact .inr ⟨_, _, _, rfl⟩
  · cases h

/-- What has been put into a hunk has led to where the rest of the changes begins. -/
theorem stand_hunksFrom (hhunk : Leads (Change.Moves old new) i j hunk p q)
    (hcs : Leads (Change.Moves old new) p q cs i' j') (hstarts : Starts (hunk ++ cs) i j)
    (hstops : Stops old new (hunk ++ cs) i' j') (hend : Stand old new i' j' []) :
    Stand old new i j (hunksFrom hunk cs) := by
  fun_induction hunksFrom hunk cs generalizing i j p q with
  | case1 hunk hworth =>
    obtain ⟨rfl, rfl⟩ := hcs
    rw [List.append_nil] at hstarts hstops
    have hne : hunk ≠ [] := fun hnil => absurd hworth (hnil ▸ Bool.false_ne_true)
    exact .cons (g := 0) .zero ⟨hne, hhunk, hstarts, hstops⟩ hend
  | case2 hunk hworth =>
    obtain ⟨rfl, rfl⟩ := hcs
    -- Kept lines alone are not a hunk: they agree like those between hunks.
    rcases not_worthShowing (Bool.not_eq_true _ ▸ hworth) with rfl | ⟨o, n, c, rfl⟩
    · obtain ⟨rfl, rfl⟩ := hhunk
      exact hend
    · cases leads_single.1 hhunk with
      | keep hc hagree => exact hend.behind hagree
  | case3 hunk o n c cs hlong ih =>
    obtain ⟨_, _, hfirst, hrest⟩ := hcs
    cases hfirst with
    | keep hc hagree =>
      -- The run ends a hunk and starts the next one, with a gap between the two.
      have hcut : context + (c - 2 * context) = c - context := by
        rw [context] at hlong ⊢
        omega
      have hgap : Agree old new (o + context) (n + context) (c - 2 * context) :=
        Agree.drop (hagree.mono (by omega))
      refine .cons (g := 0) .zero ⟨List.append_ne_nil_of_right_ne_nil _ (List.cons_ne_nil _ _),
        hhunk.concat (moves_take (by decide) (by omega) hagree),
        starts_of_append (fun _ => rfl) hstarts, .inl ?_⟩ (Stand.behind hgap ?_)
      · rw [List.getLast?_concat]
        rfl
      · rw [Nat.add_assoc, Nat.add_assoc, hcut]
        exact ih (leads_single.2 (moves_lastOf hc hagree)) hrest (.inl rfl)
          (stops_of_append [] (fun _ => rfl) hstops)
  | case4 hunk o n c cs hshort ih =>
    obtain ⟨_, _, hfirst, hrest⟩ := hcs
    rw [List.append_cons] at hstarts hstops
    exact ih (hhunk.concat hfirst) hrest hstarts hstops
  | case5 hunk c cs hreplace ih =>
    obtain ⟨_, _, hfirst, hrest⟩ := hcs
    rw [List.append_cons] at hstarts hstops
    exact ih (hhunk.concat hfirst) hrest hstarts hstops

/-- The hunks of changes stand in the sequences that these lead through. -/
theorem stand_hunks (h : Leads (Change.Moves old new) 0 0 cs old.size new.size) :
    Stand old new 0 0 (hunks cs) := by
  obtain ⟨g, hagree, htrimmed, hstarts⟩ := leads_trimFirst h
  obtain ⟨p, q, hleads, hstarts, hstops, hend⟩ := leads_trimLast htrimmed hstarts
  have hstand : Stand old new g g (hunksFrom [] (trimLast (trimFirst cs))) :=
    stand_hunksFrom .nil hleads hstarts hstops hend
  rw [hunks]
  rw [← Nat.zero_add g] at hstand
  exact hstand.behind hagree

theorem hunks_step_keep (i j c : Nat) : hunks (changes (step .keep i j c)) = [] := by
  rw [step]
  split
  · rfl
  · have hshort : ¬ 2 * context < min (c - (c - context)) context := by
      rw [context]
      omega
    have htrim : trimLast (trimFirst (changes [⟨.keep, i, j, c⟩])) =
        [.keep (i + (c - context)) (j + (c - context)) (min (c - (c - context)) context)] := rfl
    rw [hunks, htrim, hunksFrom, if_neg hshort]
    rfl

end LintHooks.Diff
