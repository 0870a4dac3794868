import LintHooks.Diff.Script
set_option autoImplicit false

/-!
# Diffs: where the paths meet

The paths through a window are not held back by its borders.  Still the point where two of them are
found to meet lies in the window.  For a path that runs over a border has been on it one step
before, on the next diagonal, or another path has; and on the border every path from the other end
is met.

The main result is `middle?_mem`, by induction on the steps of the search (`meeting?_mem`).  What
carries the induction is `Frontier`, how far paths can have got.  `StartsFrom` says where a path of
the next frontier starts, and a frontier stays one under `stepped` (`Frontier.stepped`): a path that
starts over a border has one before it that has come to the border (`Frontier.before_right`,
`Frontier.before_down`) and one beside it that starts on the border (`Frontier.next_right`,
`Frontier.next_down`).  Frontiers that have not met are `Short` (`short_of_apart`), and with such a
frontier the next meeting is in the window (`Frontier.reach_mem`).
-/

namespace LintHooks.Diff

/-! ## Starting points -/

/-- Where a path starts at a place of the next frontier: one step down from the place before or one
step to the right, whichever is further. -/
structure StartsFrom (xs : List Nat) (i s : Nat) : Prop where
  origin : (∃ j, i = j + 1 ∧ xs[j]? = some s) ∨ ∃ x, xs[i]? = some x ∧ s = x + 1
  down : ∀ j x, i = j + 1 → xs[j]? = some x → x ≤ s
  right : ∀ x, xs[i]? = some x → x < s

theorem StartsFrom.cons {xs : List Nat} {i s : Nat} (h : StartsFrom xs (i + 1) s) (x : Nat) :
    StartsFrom (x :: xs) (i + 2) s where
  origin := h.origin.imp (fun ⟨j, hj, hs⟩ => ⟨j + 1, by omega, hs⟩) id
  down j y hj hy := by
    obtain rfl : j = i + 1 := by omega
    exact h.down i y rfl hy
  right := h.right

theorem startsFrom_go {left i s : Nat} {xs : List Nat}
    (h : (startsAfter.go left xs)[i]? = some s) : StartsFrom (left :: xs) (i + 1) s := by
  induction xs generalizing left i with
  | nil =>
    cases i with
    | zero =>
      obtain rfl : left = s := Option.some.inj h
      exact ⟨.inl ⟨0, rfl, rfl⟩, fun j x hj hx => by simp_all, nofun⟩
    | succ i => cases h
  | cons x xs ih =>
    rw [startsAfter.go] at h
    cases i with
    | zero =>
      rw [List.getElem?_cons_zero, Option.some.injEq] at h
      refine ⟨?_, fun j y hj hy => ?_, fun y hy => ?_⟩
      · by_cases hx : x < left
        · exact .inl ⟨0, rfl, by simp_all⟩
        · exact .inr ⟨x, rfl, by simp_all⟩
      · obtain rfl : j = 0 := by omega
        obtain rfl : left = y := Option.some.inj hy
        split at h <;> omega
      · obtain rfl : x = y := Option.some.inj hy
        split at h <;> omega
    | succ i => exact (ih h).cons left

theorem startsFrom_startsAfter {xs : List Nat} {i s : Nat} (hne : xs ≠ [])
    (h : (startsAfter xs)[i]? = some s) : StartsFrom xs i s := by
  cases xs with
  | nil => exact absurd rfl hne
  | cons x xs =>
    cases i with
    | zero =>
      obtain rfl : x + 1 = s := Option.some.inj h
      exact ⟨.inr ⟨x, rfl, rfl⟩, nofun, fun y hy => by simp_all⟩
    | succ i => exact startsFrom_go h

theorem length_go (left : Nat) (xs : List Nat) :
    (startsAfter.go left xs).length = xs.length + 1 := by
  induction xs generalizing left with
  | nil => rfl
  | cons x xs ih => rw [startsAfter.go, List.length_cons, ih, List.length_cons]

theorem length_startsAfter (xs : List Nat) : (startsAfter xs).length = xs.length + 1 := by
  cases xs with
  | nil => rfl
  | cons x xs => rw [startsAfter, List.length_cons, length_go, List.length_cons]

/-! ## Frontiers -/

/-- How far paths may have got on their diagonals, in a window of `n` lines and `m` lines.  Place
`i` of a frontier of length `d + 1` belongs to the diagonal `d - 2 * i`; a path that is `x` to the
right there is `x + 2 * i - d` down. -/
structure Frontier (n m : Nat) (xs : List Nat) : Prop where
  /-- No path is above the window. -/
  reached : ∀ i x, xs[i]? = some x → xs.length ≤ x + 2 * i + 1
  /-- A path is over the right border by its steps to the right at most. -/
  right_le : ∀ i x, xs[i]? = some x → x + i + 1 ≤ n + xs.length
  /-- A path is over the lower border by its steps down at most. -/
  down_le : ∀ i x, xs[i]? = some x → x + i + 1 ≤ m + xs.length
  /-- Where a path is over the right border, the next one has come to it. -/
  right : ∀ i x, xs[i]? = some x → n < x → ∃ y, xs[i + 1]? = some y ∧ n ≤ y
  /-- Where a path is over the lower border, the one before has come to it. -/
  down : ∀ i x, xs[i]? = some x → m + xs.length < x + 2 * i + 1 →
    ∃ j y, i = j + 1 ∧ xs[j]? = some y ∧ m + xs.length ≤ y + 2 * j + 1

variable {n m d i s t : Nat} {xs : List Nat} {slide : Nat → Nat → Nat}

theorem Frontier.nil : Frontier n m [] := ⟨nofun, nofun, nofun, nofun, nofun⟩

theorem downOf_diagonal (s d i : Nat) : downOf s ((d : Int) - 2 * (i : Int)) = s + 2 * i - d := by
  rw [downOf]
  omega

/-- The path at a place of the next frontier. -/
def reachAt (slide : Nat → Nat → Nat) (d i s : Nat) : Reach :=
  ⟨(d : Int) - 2 * (i : Int), s, s + slide s (s + 2 * i - d)⟩

theorem getElem?_reaches (slide : Nat → Nat → Nat) (d : Nat) (xs : List Nat) (i : Nat) :
    (reaches slide d xs)[i]? = (startsAfter xs)[i]?.map (reachAt slide d i) := by
  rw [reaches, List.getElem?_mapIdx]
  congr 1
  funext s
  rw [reachAt, ← downOf_diagonal]

/-- The free diagonals of a window of `n` lines and `m` lines end at its borders. -/
def Bounded (n m : Nat) (slide : Nat → Nat → Nat) : Prop := ∀ x y, slide x y ≤ min (n - x) (m - y)

/-- A path starts in the first frontier at the corner, and in a later one from a path of the
frontier before. -/
theorem start_cases (h : (startsAfter xs)[i]? = some s) :
    (xs = [] ∧ i = 0 ∧ s = 0) ∨ StartsFrom xs i s := by
  by_cases hxs : xs = []
  · subst hxs
    cases i with
    | zero => exact .inl ⟨rfl, rfl, (Option.some.inj h).symm⟩
    | succ i => cases h
  · exact .inr (startsFrom_startsAfter hxs h)

theorem exists_start (hi : i ≤ xs.length) : ∃ s, (startsAfter xs)[i]? = some s :=
  ⟨_, List.getElem?_eq_getElem (by rw [length_startsAfter]; omega)⟩

theorem Frontier.le_start (h : Frontier n m xs) (hs : (startsAfter xs)[i]? = some s) :
    xs.length ≤ s + 2 * i := by
  rcases start_cases hs with ⟨rfl, -, -⟩ | hfrom
  · exact Nat.zero_le _
  · rcases hfrom.origin with ⟨j, rfl, hj⟩ | ⟨x, hx, rfl⟩
    · have := h.reached j s hj
      omega
    · have := h.reached i x hx
      omega

/-- Where a path starts over the right border, the path before it on the diagonal to the left has
come to the border. -/
theorem Frontier.before_right (h : Frontier n m xs) (hs : (startsAfter xs)[i]? = some s)
    (hover : n < s) : ∃ y, xs[i]? = some y ∧ n ≤ y := by
  rcases start_cases hs with ⟨-, -, rfl⟩ | hfrom
  · omega
  · rcases hfrom.origin with ⟨j, rfl, hj⟩ | ⟨x, hx, rfl⟩
    · exact h.right j s hj hover
    · exact ⟨x, hx, Nat.le_of_lt_succ hover⟩

/-- Where a path starts over the lower border, the path before it on the diagonal to the right has
come to the border. -/
theorem Frontier.before_down (h : Frontier n m xs) (hs : (startsAfter xs)[i]? = some s)
    (hover : m + xs.length < s + 2 * i) :
    ∃ j y, i = j + 1 ∧ xs[j]? = some y ∧ m + xs.length ≤ y + 2 * j + 1 := by
  rcases start_cases hs with ⟨-, rfl, rfl⟩ | hfrom
  · omega
  · rcases hfrom.origin with ⟨j, rfl, hj⟩ | ⟨x, hx, rfl⟩
    · exact ⟨j, s, rfl, hj, by omega⟩
    · exact h.down i x hx (by omega)

/-- Beside a path that starts over the right border the next one starts on it. -/
theorem Frontier.next_right (h : Frontier n m xs) (hs : (startsAfter xs)[i]? = some s)
    (hover : n < s) : ∃ u, (startsAfter xs)[i + 1]? = some u ∧ n ≤ u := by
  obtain ⟨y, hy, hle⟩ := h.before_right hs hover
  obtain ⟨hi, -⟩ := List.getElem?_eq_some_iff.1 hy
  obtain ⟨u, hu⟩ := exists_start hi
  have hne : xs ≠ [] := List.ne_nil_of_length_pos (Nat.zero_lt_of_lt hi)
  exact ⟨u, hu, Nat.le_trans hle ((startsFrom_startsAfter hne hu).down i y rfl hy)⟩

/-- Beside a path that starts over the lower border the one before starts on it. -/
theorem Frontier.next_down (h : Frontier n m xs) (hs : (startsAfter xs)[i]? = some s)
    (hover : m + xs.length < s + 2 * i) :
    ∃ j u, i = j + 1 ∧ (startsAfter xs)[j]? = some u ∧ m + xs.length ≤ u + 2 * j := by
  obtain ⟨j, y, rfl, hy, hle⟩ := h.before_down hs hover
  obtain ⟨hj, -⟩ := List.getElem?_eq_some_iff.1 hy
  obtain ⟨u, hu⟩ := exists_start (Nat.le_of_lt hj)
  have hne : xs ≠ [] := List.ne_nil_of_length_pos (Nat.zero_lt_of_lt hj)
  have hright := (startsFrom_startsAfter hne hu).right y hy
  exact ⟨j, u, rfl, hu, by omega⟩

/-- Over each border a path starts by its steps in that direction at most. -/
theorem Frontier.start_le (h : Frontier n m xs) (hs : (startsAfter xs)[i]? = some s) :
    s + i ≤ n + xs.length ∧ s + i ≤ m + xs.length := by
  rcases start_cases hs with ⟨-, rfl, rfl⟩ | hfrom
  · exact ⟨Nat.zero_le _, Nat.zero_le _⟩
  · rcases hfrom.origin with ⟨j, rfl, hj⟩ | ⟨x, hx, rfl⟩
    · have := h.right_le j s hj
      have := h.down_le j s hj
      omega
    · have := h.right_le i x hx
      have := h.down_le i x hx
      omega

/-- How far the paths get with one more step. -/
def stepped (slide : Nat → Nat → Nat) (xs : List Nat) : List Nat :=
  (reaches slide xs.length xs).map Reach.stop

theorem length_stepped (slide : Nat → Nat → Nat) (xs : List Nat) :
    (stepped slide xs).length = xs.length + 1 := by
  rw [stepped, List.length_map, reaches, List.length_mapIdx, length_startsAfter]

theorem getElem?_stepped (slide : Nat → Nat → Nat) (xs : List Nat) (i : Nat) :
    (stepped slide xs)[i]? =
      (startsAfter xs)[i]?.map fun s => s + slide s (s + 2 * i - xs.length) := by
  rw [stepped, List.getElem?_map, getElem?_reaches, Option.map_map]
  rfl

/-- A path slides no further than to a border, and not at all behind one. -/
theorem Frontier.stepped (h : Frontier n m xs) (hslide : Bounded n m slide) :
    Frontier n m (stepped slide xs) := by
  have hlength := length_stepped slide xs
  have hstop : ∀ i s : Nat, (startsAfter xs)[i]? = some s →
      ∃ t, (Diff.stepped slide xs)[i]? = some t ∧ s ≤ t :=
    fun i s hs => ⟨_, by rw [getElem?_stepped, hs, Option.map_some], Nat.le_add_right s _⟩
  constructor
  all_goals
    intro i t ht
    obtain ⟨hi, -⟩ := List.getElem?_eq_some_iff.1 ht
    rw [getElem?_stepped, Option.map_eq_some_iff] at ht
    obtain ⟨s, hs, rfl⟩ := ht
    have hle := h.le_start hs
    have hmost := h.start_le hs
    have hfree := hslide s (s + 2 * i - xs.length)
  · omega
  · omega
  · omega
  · intro hover
    obtain ⟨u, hu, hn⟩ := h.next_right hs (by omega)
    obtain ⟨v, hv, huv⟩ := hstop _ u hu
    exact ⟨v, hv, by omega⟩
  · intro hover
    obtain ⟨j, u, rfl, hu, hm⟩ := h.next_down hs (by omega)
    obtain ⟨v, hv, huv⟩ := hstop _ u hu
    exact ⟨j, v, rfl, hv, by omega⟩

/-! ## Short paths -/

/-- The paths on the diagonals up to a distance from the far corner's are short of both far borders
of the window. -/
def Short (n m : Nat) (c : Int) (xs : List Nat) : Prop :=
  ∀ i x : Nat, xs[i]? = some x →
    -c ≤ (xs.length : Int) - 1 - 2 * i - (n - m) ∧ (xs.length : Int) - 1 - 2 * i - (n - m) ≤ c →
    x < n ∧ x + 2 * i + 1 < m + xs.length

/-- As long as the paths around the far corner's diagonal are short, those on one diagonal more
start in the window. -/
theorem Frontier.start_mem {c : Int} (h : Frontier n m xs) (hshort : Short n m c xs)
    (hc : (xs.length : Int) ≤ c + 2) (hparity : ((xs.length : Int) + 1 + c - (n - m)) % 2 = 0)
    (hs : (startsAfter xs)[i]? = some s)
    (hnear : -(c + 1) ≤ (xs.length : Int) - 2 * i - (n - m) ∧
      (xs.length : Int) - 2 * i - (n - m) ≤ c + 1) :
    s ≤ n ∧ s + 2 * i ≤ m + xs.length := by
  constructor
  · refine Nat.le_of_not_lt fun hover => ?_
    obtain ⟨y, hy, hle⟩ := h.before_right hs hover
    obtain ⟨hi, -⟩ := List.getElem?_eq_some_iff.1 hy
    -- a path on the right border is not short, unless its diagonal is too far to the left
    have hdown := h.down_le i y hy
    have := hshort i y hy (by omega)
    omega
  · refine Nat.le_of_not_lt fun hover => ?_
    obtain ⟨j, y, rfl, hy, hle⟩ := h.before_down hs hover
    have hright := h.right_le j y hy
    have := hshort j y hy (by omega)
    omega

/-- On a diagonal that a frontier covers it has a path, in the window or over a far border. -/
theorem Frontier.facing {k : Int} (delta : Int) (h : Frontier n m xs)
    (hcover : (delta - k).natAbs < xs.length)
    (hparity : ((xs.length : Int) - 1 - (delta - k)) % 2 = 0) :
    ∃ x, facing? xs ((xs.length : Int) - 1) delta k = some x ∧ delta - k ≤ (x : Int) := by
  obtain ⟨i, hi⟩ : ∃ i : Nat, (i : Int) = ((xs.length : Int) - 1 - (delta - k)) / 2 :=
    ⟨(((xs.length : Int) - 1 - (delta - k)) / 2).toNat, by omega⟩
  have hlt : i < xs.length := by omega
  refine ⟨xs[i], ?_, ?_⟩
  · have hsame : -(k - delta) = delta - k := by omega
    have hplace : (((xs.length : Int) - 1 - (delta - k)) / 2).toNat = i := by omega
    rw [facing?, hsame, if_pos (by omega), hplace, List.getElem?_eq_getElem hlt]
  · have := h.reached i _ (List.getElem?_eq_getElem hlt)
    omega

/-! ## The point -/

variable {α : Type} [DecidableEq α] {old new : Array α} {w : Window}

theorem bounded_slideAhead (old new : Array α) (w : Window) :
    Bounded w.oldSize w.newSize (slideAhead old new w) :=
  fun _ _ => agreeAhead_le _ _ _ _ _

theorem bounded_slideBehind (old new : Array α) (w : Window) :
    Bounded w.oldSize w.newSize (slideBehind old new w) :=
  fun _ _ => agreeBehind_le _ _ _ _ _

/-- Where no path of a frontier meets one from the other end, those that face one are short. -/
theorem short_of_apart {ys : List Nat} {e : Int} (hd : xs.length = d)
    (he : (ys.length : Int) = e + 1) (hys : Frontier n m ys)
    (hparity : ((n : Int) - m - d - e) % 2 = 0)
    (hapart : ∀ r ∈ reaches slide d xs,
      ¬ ((facing? ys e ((n : Int) - m) r.diagonal).any fun x => n ≤ r.stop + x) = true) :
    Short n m e (stepped slide xs) := by
  subst hd
  intro i t ht hnear
  rw [length_stepped] at hnear ⊢
  rw [getElem?_stepped, Option.map_eq_some_iff] at ht
  obtain ⟨s, hs, rfl⟩ := ht
  have hr : reachAt slide xs.length i s ∈ reaches slide xs.length xs := by
    refine List.mem_of_getElem? (i := i) ?_
    rw [getElem?_reaches, hs, Option.map_some]
  obtain ⟨x, hx, hfar⟩ := hys.facing (k := (xs.length : Int) - 2 * i) ((n : Int) - m) (by omega)
    (by omega)
  have hmiss := hapart _ hr
  have hplace : (ys.length : Int) - 1 = e := by omega
  rw [reachAt, ← hplace, hx, Option.any_some, decide_eq_true_eq] at hmiss
  dsimp only at hmiss
  omega

theorem facing?_near {ys : List Nat} {e delta k : Int} {x : Nat}
    (h : facing? ys e delta k = some x) : -e ≤ k - delta ∧ k - delta ≤ e := by
  rw [facing?] at h
  split at h
  · omega
  · cases h

/-- A path that meets one from the other end has started in the window and stays in it. -/
theorem Frontier.reach_mem {ys : List Nat} {e : Int} {r : Reach} (h : Frontier n m xs)
    (hd : xs.length = d) (hshort : Short n m (e - 1) xs) (he : (d : Int) ≤ e + 1)
    (hparity : ((n : Int) - m - d - e) % 2 = 0) (hslide : Bounded n m slide)
    (hfound : (reaches slide d xs).find? (fun r =>
      (facing? ys e ((n : Int) - m) r.diagonal).any fun x => n ≤ r.stop + x) = some r) :
    (r.start ≤ n ∧ downOf r.start r.diagonal ≤ m) ∧ r.stop ≤ n ∧ downOf r.stop r.diagonal ≤ m := by
  subst hd
  have hmet := List.find?_some hfound
  obtain ⟨z, hz, -⟩ := (Option.any_eq_true _ _).1 hmet
  have hnear := facing?_near hz
  obtain ⟨i, hi⟩ := List.getElem?_of_mem (List.mem_of_find?_eq_some hfound)
  rw [getElem?_reaches, Option.map_eq_some_iff] at hi
  obtain ⟨s, hs, rfl⟩ := hi
  rw [reachAt] at hnear ⊢
  dsimp only at hnear ⊢
  have hmem := h.start_mem hshort (by omega) (by omega) hs (by omega)
  have hfree := hslide s (s + 2 * i - xs.length)
  rw [downOf_diagonal, downOf_diagonal]
  omega

/-- A point of a window, borders included. -/
structure Window.Holds (w : Window) (x y : Nat) : Prop where
  old : w.oldStart ≤ x ∧ x ≤ w.oldStop
  new : w.newStart ≤ y ∧ y ≤ w.newStop

theorem map_stop_reaches (hd : xs.length = d) :
    (reaches slide d xs).map Reach.stop = stepped slide xs := by
  rw [stepped, hd]

/-- The search goes on with frontiers that have not met, so that their paths are short where they
face each other. -/
theorem meeting?_mem {bound d x y : Nat} {ahead behind : List Nat}
    (hold : w.oldStart ≤ w.oldStop) (hnew : w.newStart ≤ w.newStop)
    (hahead : Frontier w.oldSize w.newSize ahead) (hbehind : Frontier w.oldSize w.newSize behind)
    (hda : ahead.length = d) (hdb : behind.length = d)
    (hodd : ((w.oldSize : Int) - w.newSize) % 2 ≠ 0 →
      Short w.oldSize w.newSize ((d : Int) - 1 - 1) ahead)
    (heven : ((w.oldSize : Int) - w.newSize) % 2 = 0 →
      Short w.oldSize w.newSize ((d : Int) - 1) behind)
    (h : meeting? old new w bound d ahead behind = some (x, y)) : w.Holds x y := by
  induction bound generalizing d ahead behind with
  | zero => cases h
  | succ bound ih =>
    have hslideAhead := bounded_slideAhead old new w
    have hslideBehind := bounded_slideBehind old new w
    have hlengthAhead := length_stepped (slideAhead old new w) ahead
    have hlengthBehind := length_stepped (slideBehind old new w) behind
    have hsizes : w.oldSize = w.oldStop - w.oldStart ∧ w.newSize = w.newStop - w.newStart :=
      ⟨rfl, rfl⟩
    rw [meeting?] at h
    dsimp only at h
    rw [map_stop_reaches hda, map_stop_reaches hdb] at h
    by_cases hdelta : ((w.oldSize : Int) - w.newSize) % 2 = 0
    · rw [if_neg (not_not_intro hdelta)] at h
      dsimp only at h
      rw [if_neg (not_not_intro hdelta)] at h
      split at h
      · next r hr =>
        obtain ⟨rfl, rfl⟩ := Prod.mk.inj (Option.some.inj h)
        have hmem := hbehind.reach_mem hdb (heven hdelta) (by omega) (by omega) hslideBehind hr
        constructor <;> omega
      · next hapart =>
        refine ih (hahead.stepped hslideAhead) (hbehind.stepped hslideBehind) (by omega) (by omega)
          (fun hne => absurd hdelta hne) (fun _ => ?_) h
        have hshort := short_of_apart hdb (by omega) (hahead.stepped hslideAhead) (by omega)
          (List.find?_eq_none.1 hapart)
        rwa [Int.natCast_add, Int.natCast_one, Int.add_sub_cancel]
    · rw [if_pos hdelta] at h
      split at h
      · next r hr =>
        obtain ⟨rfl, rfl⟩ := Prod.mk.inj (Option.some.inj h)
        have hmem := hahead.reach_mem hda (hodd hdelta) (by omega) (by omega) hslideAhead hr
        constructor <;> omega
      · next hapart =>
        rw [if_pos hdelta] at h
        refine ih (hahead.stepped hslideAhead) (hbehind.stepped hslideBehind) (by omega) (by omega)
          (fun _ => ?_) (fun heq => absurd heq hdelta) h
        have hshort := short_of_apart hda (by omega) hbehind (by omega)
          (List.find?_eq_none.1 hapart)
        rwa [Int.natCast_add, Int.natCast_one, Int.add_sub_cancel]

/-- Where the shortest paths through a window meet is in the window. -/
theorem middle?_mem {x y : Nat} (hold : w.oldStart ≤ w.oldStop) (hnew : w.newStart ≤ w.newStop)
    (h : middle? old new w = some (x, y)) : w.Holds x y :=
  meeting?_mem hold hnew .nil .nil rfl rfl (fun _ => nofun) (fun _ => nofun) h

end LintHooks.Diff
