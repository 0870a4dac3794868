import LintHooks.Options.Parse
import Mathlib.Data.List.Nodup
set_option autoImplicit false

/-!
# Options: the order of the arguments for a system

The arguments for Linux come from two options, and each of the two yields its values on its own.
Reading brings them into one order again by the indices that they have on the command line.
`platformValues_eq` says that this is the order in which the options were given, as if all of
them had been taken from the command line at once.

The argument needs two things of the indices.  They grow from one option to the next
(`pairwise_indexed`), so no two are equal and sorting leaves no choice
(`mergeSort_eq_of_perm`).  And an option is found with its own index
(`zip_indices`), so what is sorted are the right pairs.
-/

namespace LintHooks

namespace Reading

/-- Pairs with distinct numbers are sorted by these in one way only. -/
theorem mergeSort_eq_of_perm {α : Type} {l l' : List (Nat × α)} (hp : l.Perm l')
    (hs : l'.Pairwise fun a b => a.1 < b.1) : l.mergeSort (fun a b => a.1 ≤ b.1) = l' := by
  have hdistinct : (l'.map Prod.fst).Nodup := by
    rw [List.Nodup, List.pairwise_map]
    exact hs.imp Nat.ne_of_lt
  have hperm : (l.mergeSort fun a b => a.1 ≤ b.1).Perm l' := (List.mergeSort_perm l _).trans hp
  have hsorted : (l.mergeSort fun a b => a.1 ≤ b.1).Pairwise fun a b => a.1 ≤ b.1 := by
    refine (List.pairwise_mergeSort ?_ ?_ l).imp of_decide_eq_true
    · exact fun a b c hab hbc =>
        decide_eq_true (Nat.le_trans (of_decide_eq_true hab) (of_decide_eq_true hbc))
    · exact fun a b => by simp [Nat.le_total]
  refine hperm.eq_of_pairwise ?_ hsorted (hs.imp Nat.le_of_lt)
  intro a b ha hb hab hba
  exact List.inj_on_of_nodup_map hdistinct (hperm.mem_iff.1 ha) hb (Nat.le_antisymm hab hba)

/-! ## Indices -/

variable {o : Opt}

theorem map_snd_indexed (last : Nat) (given : List Occurrence) :
    (indexed last given).map Prod.snd = given := by
  induction given generalizing last with
  | nil => rfl
  | cons x given ih => exact congrArg (x :: ·) (ih _)

theorem lt_of_mem_indexed {last : Nat} {given : List Occurrence} {p : Nat × Occurrence}
    (h : p ∈ indexed last given) : last < p.1 := by
  induction given generalizing last with
  | nil => cases h
  | cons x given ih =>
    have hstep : last < last + if x.opt.takesValue then 2 else 1 := by split <;> omega
    rcases List.mem_cons.1 h with rfl | h
    · exact hstep
    · exact Nat.lt_trans hstep (ih h)

/-- The indices grow from one option to the next. -/
theorem pairwise_indexed (last : Nat) (given : List Occurrence) :
    (indexed last given).Pairwise fun a b => a.1 < b.1 := by
  induction given generalizing last with
  | nil => exact .nil
  | cons x given ih => exact .cons (fun _ h => lt_of_mem_indexed h) (ih _)

theorem values_eq (r : Reading) (opts : List Opt) :
    r.values opts =
      ((indexed 0 r.given).filter fun p => opts.contains p.2.opt).map fun p => p.2.value := by
  have hmap := map_snd_indexed 0 r.given
  rw [values, ← hmap, List.filter_map, List.map_map, hmap]
  rfl

/-- The indices of an option and its values belong to each other. -/
theorem zip_indices (r : Reading) (o : Opt) :
    (r.indices o).zip (r.values [o]) =
      ((indexed 0 r.given).filter fun p => p.2.opt == o).map fun p => (p.1, p.2.value) := by
  have hone : (fun p : Nat × Occurrence => [o].contains p.2.opt) = fun p => p.2.opt == o := by
    funext p
    rw [List.contains_cons, List.contains_nil, Bool.or_false]
  rw [values_eq, hone, indices, List.zip_map', List.map_inj_left]
  exact fun _ _ => rfl

/-- Options that are looked for one after the other are those that are looked for at once. -/
theorem perm_filter_opt (l : List (Nat × Occurrence)) (ho : o ≠ .unix) :
    (l.filter (fun p => p.2.opt == .unix) ++ l.filter fun p => p.2.opt == o).Perm
      (l.filter fun p => [Opt.unix, o].contains p.2.opt) := by
  have hunix : l.filter (fun p => p.2.opt == .unix) =
      (l.filter fun p => [Opt.unix, o].contains p.2.opt).filter fun p => p.2.opt == .unix := by
    rw [List.filter_filter]
    refine List.filter_congr fun p _ => ?_
    by_cases hu : p.2.opt = .unix <;> simp [hu]
  have hother : l.filter (fun p => p.2.opt == o) =
      (l.filter fun p => [Opt.unix, o].contains p.2.opt).filter fun p => !p.2.opt == .unix := by
    rw [List.filter_filter]
    refine List.filter_congr fun p _ => ?_
    by_cases hu : p.2.opt = .unix <;> simp [hu, ho.symm, Bool.beq_eq_decide_eq]
  rw [hunix, hother]
  exact List.filter_append_perm _ _

/-- The arguments for a system stand in the order of the command line. -/
theorem platformValues_eq (r : Reading) (ho : o ≠ .unix) :
    r.platformValues o = r.values [.unix, o] := by
  have hpaired : ([Opt.unix, o].flatMap fun o => (r.indices o).zip (r.values [o])).Perm
      (((indexed 0 r.given).filter fun p => [Opt.unix, o].contains p.2.opt).map
        fun p => (p.1, p.2.value)) := by
    rw [List.flatMap_cons, List.flatMap_singleton, zip_indices, zip_indices, ← List.map_append]
    exact (perm_filter_opt _ ho).map _
  have hsorted : (((indexed 0 r.given).filter fun p => [Opt.unix, o].contains p.2.opt).map
      fun p => (p.1, p.2.value)).Pairwise fun a b => a.1 < b.1 := by
    rw [List.pairwise_map]
    exact (pairwise_indexed 0 r.given).filter _
  rw [platformValues, mergeSort_eq_of_perm hpaired hsorted, List.map_map, values_eq]
  rfl

end Reading

end LintHooks
