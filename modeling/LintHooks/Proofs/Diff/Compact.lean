import LintHooks.Diff.Compact
import LintHooks.Proofs.Diff.Script
set_option autoImplicit false

/-!
# Diffs: what compacting leaves

Whatever a step walks over, the script leads from where it began to where it ended.  An addition
changes places with kept lines that its own lines can stand for, and with a removal without more
ado; what a step says about its place in the other sequence gets lost on the way.

The main statement is `leads_compact`: a compact script leads where the script has led.  What it
preserves is the relation `Leads` and not the script, so each way to change two or three neighboring
steps has its own lemma: exchanging a removal and an addition (`leads_swap`), taking two of a kind
together (`leads_merge`), giving kept lines from one side to the other (`leads_keepBefore`,
`leads_keepAfter`).  Sliding is made of these (`leads_slideUp`, `leads_slideDown`), a walk of slides
(`leads_walkUp`, `leads_walkDown`), and compacting of walks for one step after the other
(`leads_compactFrom`).
-/

namespace LintHooks.Diff

variable {α : Type} {old new : Array α} {i j i' j' n p q : Nat} {a b kept e : Edit}
  {es before after : List Edit}

/-! ## Steps at a place -/

theorem Edit.moves_keep (hkind : e.kind = .keep) (hold : e.old = i) (hnew : e.new = j)
    (hc : 0 < e.count) (hagree : Agree old new i j e.count) (hi : i' = i + e.count)
    (hj : j' = j + e.count) : Edit.Moves old new e i j i' j' := by
  obtain ⟨kind, x, y, c⟩ := e
  cases hkind
  cases hold
  cases hnew
  cases hi
  cases hj
  exact .keep hc hagree

theorem Edit.moves_add (hkind : e.kind = .add) (hnew : e.new = j) (hc : 0 < e.count)
    (hj : j' = j + e.count) : Edit.Moves old new e i j i j' := by
  obtain ⟨kind, x, y, c⟩ := e
  cases hkind
  cases hnew
  cases hj
  exact .add x hc

/-- What leads to the same place can stand at the end of a path. -/
theorem leads_exchangeEnd {xs ys ys' : List Edit}
    (h : Leads (Edit.Moves old new) i j (xs ++ ys) i' j')
    (hys : ∀ p q, Leads (Edit.Moves old new) p q ys i' j' →
      Leads (Edit.Moves old new) p q ys' i' j') :
    Leads (Edit.Moves old new) i j (xs ++ ys') i' j' := by
  obtain ⟨p, q, hxs, hrest⟩ := leads_append.1 h
  exact leads_append.2 ⟨p, q, hxs, hys p q hrest⟩

theorem reverse_cons_append (e : Edit) (xs ys : List Edit) :
    (e :: xs).reverse ++ ys = xs.reverse ++ e :: ys := by
  rw [List.reverse_cons, List.append_assoc, List.singleton_append]

theorem Leads.count_ne_zero
    (h : Leads (Edit.Moves old new) i j (before.reverse ++ e :: after) i' j') : e.count ≠ 0 := by
  obtain ⟨p, q, -, p', q', hmoves, -⟩ := leads_append.1 h
  cases hmoves with
  | keep hc _ => exact Nat.ne_of_gt hc
  | remove _ hc => exact Nat.ne_of_gt hc
  | add _ hc => exact Nat.ne_of_gt hc

/-! ## Neighbours -/

/-- A removal and an addition take no lines from the same sequence. -/
theorem leads_swap (hne : a.kind ≠ b.kind) (ha : a.kind ≠ .keep) (hb : b.kind ≠ .keep)
    (h : Leads (Edit.Moves old new) i j (a :: b :: es) i' j') :
    Leads (Edit.Moves old new) i j (b :: a :: es) i' j' := by
  obtain ⟨p, q, hfirst, p', q', hsecond, hrest⟩ := h
  cases hfirst with
  | keep _ _ => exact absurd rfl ha
  | remove y hc =>
    cases hsecond with
    | keep _ _ => exact absurd rfl hb
    | remove _ _ => exact absurd rfl hne
    | add x hd => exact ⟨_, _, .add x hd, _, _, .remove y hc, hrest⟩
  | add x hc =>
    cases hsecond with
    | keep _ _ => exact absurd rfl hb
    | remove y hd => exact ⟨_, _, .remove y hd, _, _, .add x hc, hrest⟩
    | add _ _ => exact absurd rfl hne

theorem leads_merge (hsame : a.kind = b.kind) (ha : a.kind ≠ .keep)
    (h : Leads (Edit.Moves old new) i j (a :: b :: es) i' j') :
    Leads (Edit.Moves old new) i j ({ a with count := a.count + b.count } :: es) i' j' := by
  obtain ⟨p, q, hfirst, p', q', hsecond, hrest⟩ := h
  cases hfirst with
  | keep _ _ => exact absurd rfl ha
  | remove y hc =>
    cases hsecond with
    | keep _ _ => cases hsame
    | remove _ _ =>
      rw [Nat.add_assoc] at hrest
      exact ⟨_, _, .remove y (Nat.add_pos_left hc _), hrest⟩
    | add _ _ => cases hsame
  | add x hc =>
    cases hsecond with
    | keep _ _ => cases hsame
    | remove _ _ => cases hsame
    | add _ _ =>
      rw [Nat.add_assoc] at hrest
      exact ⟨_, _, .add x (Nat.add_pos_left hc _), hrest⟩

/-! ## Kept lines on the other side -/

theorem leads_keepBefore (hold : kept.old + kept.count = p + n) (hnew : e.new + e.newCount = q + n)
    (hn : 0 < n) (hagree : Agree old new p q n)
    (h : Leads (Edit.Moves old new) (p + n) (q + n) after i' j') :
    Leads (Edit.Moves old new) p q (keepBefore kept e n after) i' j' := by
  have hkeep : Edit.Moves old new
      ⟨.keep, kept.old + kept.count - n, e.new + e.newCount - n, n⟩ p q (p + n) (q + n) :=
    Edit.moves_keep rfl (Nat.sub_eq_of_eq_add hold) (Nat.sub_eq_of_eq_add hnew) hn hagree rfl rfl
  cases after with
  | nil => exact ⟨_, _, hkeep, h⟩
  | cons next rest =>
    rw [keepBefore]
    split
    · next hnext =>
      obtain ⟨p', q', hmoves, hrest⟩ := h
      cases hmoves with
      | @keep _ _ c hc hsame =>
        refine ⟨_, _, Edit.moves_keep rfl (Nat.add_sub_cancel ..) (Nat.add_sub_cancel ..)
          (Nat.add_pos_left hc n) ?_ (by dsimp only; omega) (by dsimp only; omega), hrest⟩
        rw [Nat.add_comm c]
        exact hagree.append hsame
      | remove _ _ => cases hnext
      | add _ _ => cases hnext
    · exact ⟨_, _, hkeep, h⟩

theorem leads_keepAfter (hold : kept.old = p) (hnew : e.new = q) (hn : 0 < n)
    (hagree : Agree old new p q n) (h : Leads (Edit.Moves old new) i j before.reverse p q) :
    Leads (Edit.Moves old new) i j (keepAfter kept e n before).reverse (p + n) (q + n) := by
  have hkeep : Edit.Moves old new ⟨.keep, kept.old, e.new, n⟩ p q (p + n) (q + n) :=
    Edit.moves_keep rfl hold hnew hn hagree rfl rfl
  cases before with
  | nil =>
    obtain ⟨rfl, rfl⟩ := h
    exact leads_single.2 hkeep
  | cons prev rest =>
    rw [keepAfter]
    split
    · next hprev =>
      rw [List.reverse_cons] at h ⊢
      obtain ⟨p', q', hrest, hmoves⟩ := leads_append.1 h
      refine hrest.concat ?_
      cases leads_single.1 hmoves with
      | @keep _ _ c hc hsame =>
        rw [Nat.add_assoc, Nat.add_assoc]
        exact .keep (Nat.add_pos_left hc n) (hsame.append hagree)
      | remove _ _ => cases hprev
      | add _ _ => cases hprev
    · rw [List.reverse_cons]
      exact h.concat hkeep

/-- A kept step without some lines at its end. -/
def shortened (kept : Edit) (n : Nat) : List Edit :=
  if kept.count = n then [] else [{ kept with count := kept.count - n }]

/-- A kept step without some lines at its beginning. -/
def curtailed (kept : Edit) (n : Nat) : List Edit :=
  if kept.count = n then [] else [{ kept.moveDown n with count := kept.count - n }]

theorem leads_shortened {c : Nat} (hn : n ≤ c) (hagree : Agree old new i j c) :
    Leads (Edit.Moves old new) i j (shortened ⟨.keep, i, j, c⟩ n) (i + c - n) (j + c - n) := by
  rw [shortened]
  split
  · next heq =>
    dsimp only at heq
    exact ⟨by omega, by omega⟩
  · next hne =>
    dsimp only at hne
    refine leads_single.2 (Edit.moves_keep rfl rfl rfl (by dsimp only; omega) ?_
      (by dsimp only; omega) (by dsimp only; omega))
    exact hagree.mono (Nat.sub_le _ _)

theorem leads_curtailed {c : Nat} (hn : n ≤ c) (hagree : Agree old new i j c) :
    Leads (Edit.Moves old new) (i + n) (j + n) (curtailed ⟨.keep, i, j, c⟩ n) (i + c) (j + c) := by
  rw [curtailed]
  split
  · next heq =>
    dsimp only at heq
    exact ⟨by omega, by omega⟩
  · next hne =>
    dsimp only at hne
    refine leads_single.2 (Edit.moves_keep rfl rfl rfl (by dsimp only; omega) ?_
      (by dsimp only; omega) (by dsimp only; omega))
    rw [← Nat.add_sub_cancel' hn] at hagree
    exact hagree.drop

section Walking

variable [DecidableEq α]

theorem shared_remove (old new : Array α) (kept : Edit) (x y c : Nat) :
    sharedEnd old new kept ⟨.remove, x, y, c⟩ = 0 ∧
      sharedStart old new kept ⟨.remove, x, y, c⟩ = 0 := by
  have hnone : Edit.newCount ⟨.remove, x, y, c⟩ = 0 := rfl
  rw [sharedEnd, sharedStart, hnone, Nat.min_zero]
  exact ⟨rfl, rfl⟩

/-- An addition goes up as far as it agrees with the end of the kept lines before it. -/
theorem leads_slideUp (hkept : kept.kind = .keep) (he : e.kind ≠ .keep)
    (hshared : 0 < sharedEnd old new kept e)
    (h : Leads (Edit.Moves old new) i j (kept :: e :: after) i' j') :
    Leads (Edit.Moves old new) i j (shortened kept (sharedEnd old new kept e) ++
      e.moveUp (sharedEnd old new kept e) :: keepBefore kept e (sharedEnd old new kept e) after)
      i' j' := by
  obtain ⟨p, q, hfirst, p', q', hsecond, hrest⟩ := h
  cases hfirst with
  | remove _ _ => cases hkept
  | add _ _ => cases hkept
  | @keep _ _ c hc hsame =>
    cases hsecond with
    | keep _ _ => exact absurd rfl he
    | remove y _ =>
      rw [(shared_remove old new _ _ y _).1] at hshared
      exact absurd hshared (Nat.lt_irrefl 0)
    | @add _ _ d x hd =>
      have hle := agreeBehind_le old new (i + c) (j + c + d) (min c d)
      have hagree : Agree old new (i + c - agreeBehind old new (i + c) (j + c + d) (min c d))
          (j + c + d - agreeBehind old new (i + c) (j + c + d) (min c d))
          (agreeBehind old new (i + c) (j + c + d) (min c d)) :=
        agree_agreeBehind (by omega) (by omega)
      have hends : sharedEnd old new ⟨.keep, i, j, c⟩ ⟨.add, x, j + c, d⟩ =
        agreeBehind old new (i + c) (j + c + d) (min c d) := rfl
      rw [hends] at hshared ⊢
      generalize agreeBehind old new (i + c) (j + c + d) (min c d) = n at hshared hagree hle ⊢
      have hadd : Edit.Moves old new (Edit.moveUp ⟨.add, x, j + c, d⟩ n) (i + c - n) (j + c - n)
          (i + c - n) (j + c + d - n) :=
        Edit.moves_add rfl rfl hd (by rw [Edit.moveUp]; dsimp only; omega)
      -- The added lines are other ones of the new sequence now, and those that they end with no
      -- more are kept behind them.
      refine leads_append.2 ⟨_, _, leads_shortened (by omega) hsame, _, _, hadd, ?_⟩
      refine leads_keepBefore (by dsimp only; omega) ?_ hshared hagree ?_
      · have hcount : Edit.newCount ⟨.add, x, j + c, d⟩ = d := rfl
        rw [hcount]
        dsimp only
        omega
      · rwa [Nat.sub_add_cancel (by omega), Nat.sub_add_cancel (by omega)]

/-- An addition goes down as far as it agrees with the beginning of the kept lines after it. -/
theorem leads_slideDown (hkept : kept.kind = .keep) (he : e.kind ≠ .keep)
    (hshared : 0 < sharedStart old new kept e)
    (h : Leads (Edit.Moves old new) i j (before.reverse ++ e :: kept :: after) i' j') :
    Leads (Edit.Moves old new) i j
      ((keepAfter kept e (sharedStart old new kept e) before).reverse ++
        e.moveDown (sharedStart old new kept e) ::
          (curtailed kept (sharedStart old new kept e) ++ after)) i' j' := by
  obtain ⟨p, q, hbefore, _, _, hfirst, _, _, hsecond, hrest⟩ := leads_append.1 h
  cases hsecond with
  | remove _ _ => cases hkept
  | add _ _ => cases hkept
  | @keep _ _ c hc hsame =>
    cases hfirst with
    | keep _ _ => exact absurd rfl he
    | remove y _ =>
      rw [(shared_remove old new _ _ y _).2] at hshared
      exact absurd hshared (Nat.lt_irrefl 0)
    | @add _ _ d x hd =>
      have hle := agreeAhead_le old new p q (min c d)
      have hagree := agree_agreeAhead old new p q (min c d)
      have hstarts : sharedStart old new ⟨.keep, p, q + d, c⟩ ⟨.add, x, q, d⟩ =
        agreeAhead old new p q (min c d) := rfl
      rw [hstarts] at hshared ⊢
      generalize agreeAhead old new p q (min c d) = n at hshared hagree hle ⊢
      have hadd : Edit.Moves old new (Edit.moveDown ⟨.add, x, q, d⟩ n) (p + n) (q + n)
          (p + n) (q + d + n) :=
        Edit.moves_add rfl rfl hd (by rw [Edit.moveDown]; dsimp only; omega)
      exact leads_append.2 ⟨_, _, leads_keepAfter rfl rfl hshared hagree hbefore, _, _, hadd,
        leads_append.2 ⟨_, _, leads_curtailed (by omega) hsame, hrest⟩⟩

/-! ## Walks -/

theorem kind_walkUp (old new : Array α) (e : Edit) (after before : List Edit) :
    (walkUp old new e after before).this.kind = e.kind := by
  fun_induction walkUp old new e after before <;> simp_all [Edit.moveUp]

/-- The step that walks up is singled out, and each turn of the walk changes what it passes only. -/
theorem leads_walkUp (he : e.kind ≠ .keep)
    (h : Leads (Edit.Moves old new) i j (before.reverse ++ e :: after) i' j') :
    Leads (Edit.Moves old new) i j (walkUp old new e after before).toList i' j' := by
  fun_induction walkUp old new e after before with
  | case1 e after => exact h
  | case2 e after prev before hkeep shared hshared _ after' hwhole ih =>
    rw [reverse_cons_append] at h
    refine ih he (leads_exchangeEnd h fun p q hrest => ?_)
    have hslid := leads_slideUp hkeep he hshared hrest
    rwa [shortened, if_pos hwhole, List.nil_append] at hslid
  | case3 e after prev before hkeep shared hshared _ after' hpart ih =>
    rw [reverse_cons_append] at h
    refine ih he ?_
    rw [reverse_cons_append]
    refine leads_exchangeEnd h fun p q hrest => ?_
    have hslid := leads_slideUp hkeep he hshared hrest
    rwa [shortened, if_neg hpart, List.singleton_append] at hslid
  | case4 e after prev before hkeep shared _ hzero ih =>
    rw [reverse_cons_append] at h
    exact absurd hzero h.count_ne_zero
  | case5 e after prev before hkeep shared _ _ => exact h
  | case6 e after prev before hkeep hsame ih =>
    rw [reverse_cons_append] at h
    exact ih hkeep (leads_exchangeEnd h fun p q hrest => leads_merge hsame hkeep hrest)
  | case7 e after prev before hkeep hother ih =>
    rw [reverse_cons_append] at h
    exact ih he (leads_exchangeEnd h fun p q hrest => leads_swap hother hkeep he hrest)

theorem leads_walkDown (he : e.kind ≠ .keep)
    (h : Leads (Edit.Moves old new) i j (before.reverse ++ e :: after) i' j') :
    Leads (Edit.Moves old new) i j (walkDown old new before e after).toList i' j' := by
  fun_induction walkDown old new before e after with
  | case1 before e => exact h
  | case2 before e next after hkeep shared hshared _ before' hwhole ih =>
    have hslid := leads_slideDown hkeep he hshared h
    rw [curtailed, if_pos hwhole, List.nil_append] at hslid
    exact ih he hslid
  | case3 before e next after hkeep shared hshared _ before' hpart ih =>
    have hslid := leads_slideDown hkeep he hshared h
    rw [curtailed, if_neg hpart, List.singleton_append] at hslid
    exact ih he hslid
  | case4 before e next after hkeep shared _ hzero ih =>
    rw [← List.singleton_append, ← List.append_assoc, ← List.reverse_cons] at h
    exact absurd hzero h.count_ne_zero
  | case5 before e next after hkeep shared _ _ => exact h
  | case6 before e next after hkeep hsame ih =>
    exact ih he (leads_exchangeEnd h fun p q hrest => leads_merge hsame.symm he hrest)
  | case7 before e next after hkeep hother ih =>
    refine ih he ?_
    rw [reverse_cons_append]
    exact leads_exchangeEnd h fun p q hrest => leads_swap (Ne.symm hother) he hkeep hrest

theorem leads_compactFrom {kind : EditKind} (hkind : kind ≠ .keep) {bound : Nat}
    (h : Leads (Edit.Moves old new) i j (before.reverse ++ after) i' j') :
    Leads (Edit.Moves old new) i j (compactFrom old new kind bound before after) i' j' := by
  fun_induction compactFrom old new kind bound before after with
  | case1 before after => exact h
  | case2 bound before => rwa [List.append_nil] at h
  | case3 bound before e after hsame up down ih =>
    refine ih ?_
    have he : e.kind ≠ .keep := hsame ▸ hkind
    have hup : up.this.kind ≠ .keep := (kind_walkUp old new e after before).symm ▸ he
    rw [reverse_cons_append]
    exact leads_walkDown hup (leads_walkUp he h)
  | case4 bound before e after hother ih =>
    refine ih ?_
    rwa [reverse_cons_append]

/-- A compact script leads where the script has led. -/
theorem leads_compact (h : Leads (Edit.Moves old new) i j es i' j') :
    Leads (Edit.Moves old new) i j (compact old new es) i' j' := by
  rw [compact]
  have hremove : EditKind.remove ≠ .keep := by decide
  have hadd : EditKind.add ≠ .keep := by decide
  exact leads_compactFrom hadd (leads_compactFrom hremove h)

theorem compactFrom_single (old new : Array α) {kind : EditKind} (hkind : e.kind ≠ kind)
    (bound : Nat) : compactFrom old new kind bound [] [e] = [e] := by
  cases bound with
  | zero => rfl
  | succ bound =>
    rw [compactFrom, if_neg hkind]
    cases bound <;> rfl

theorem compact_step_keep (old new : Array α) (i j c : Nat) :
    compact old new (step .keep i j c) = step .keep i j c := by
  rw [step]
  split
  · rfl
  · have hremove : EditKind.keep ≠ .remove := by decide
    have hadd : EditKind.keep ≠ .add := by decide
    rw [compact, compactFrom_single old new hremove, compactFrom_single old new hadd]

end Walking

end LintHooks.Diff
