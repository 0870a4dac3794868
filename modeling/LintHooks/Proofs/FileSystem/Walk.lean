import LintHooks.Proofs.Path
set_option autoImplicit false

/-!
# File systems: where paths lead

Walking the names of a path is described by a relation that counts the links on the way.  A way can
be cut at every name, and where it leads to is a matter of the entries on it.  From this follows
what the program relies on when it puts paths together: names added to a path go on from where it
leads, dots do not matter, and a path without links leads where its names say.

`walk_eq_ok_iff` takes walking over into the relation `Leads`, and all that follows is about the
relation.  Ways are composed and cut (`Leads.append_iff`), lead to one place only (`Leads.unique`),
and lead there in every file system that is the `SameTree` (`Leads.sameTree`).  In a file system
that is `Sound` the next name can be read off the entries, be it that of a directory, of a link or
of a file (`enter_iff`, `link_iff`, `step_iff`), and the names of a directory lead down to it
(`down_iff`).  Where a way ends in a file system that has grown from the one it was known in is
`Leads.agree`.
-/

namespace LintHooks.FileSystem

variable {fs fs' : FileSystem}

/-- Names lead from a directory to a location, through a number of links. -/
inductive Leads (fs : FileSystem) : Nat → Location → List String → Location → Prop where
  | nil {dir : Location} : Leads fs 0 dir [] dir
  | here {k : Nat} {dir loc : Location} {names : List String} : fs.get? dir = some .directory →
    Leads fs k dir names loc → Leads fs k dir ("." :: names) loc
  | up {k : Nat} {dir loc : Location} {names : List String} : fs.get? dir = some .directory →
    Leads fs k dir.dropLast names loc → Leads fs k dir (".." :: names) loc
  | step {k : Nat} {dir loc : Location} {name : String} {names : List String} {e : Entry} :
    fs.get? dir = some .directory → name ≠ "." → name ≠ ".." → fs.get? (dir ++ [name]) = some e →
    (∀ target, e ≠ .link target) → Leads fs k (dir ++ [name]) names loc →
    Leads fs k dir (name :: names) loc
  | link {k : Nat} {dir loc : Location} {name target : String} {names : List String} :
    fs.get? dir = some .directory → name ≠ "." → name ≠ ".." →
    fs.get? (dir ++ [name]) = some (.link target) → target ≠ "" →
    Leads fs k (if Path.isAbsolute target then [] else dir) (steps target ++ names) loc →
    Leads fs (k + 1) dir (name :: names) loc

/-! ## One step of a walk -/

section Steps

variable {w : Walk} {n : Nat} {dir : Location} {name : String} {names : List String}

theorem walk_here (hdir : fs.get? dir = some .directory) :
    fs.walk w n dir ("." :: names) = fs.walk w n dir names := by
  rw [walk, hdir]
  rfl

theorem walk_up (hdir : fs.get? dir = some .directory) :
    fs.walk w n dir (".." :: names) = fs.walk w n dir.dropLast names := by
  rw [walk, hdir]
  rfl

theorem walk_step (hdir : fs.get? dir = some .directory) (hhere : name ≠ ".") (hup : name ≠ "..")
    {e : Entry} (he : fs.get? (dir ++ [name]) = some e) (hlink : ∀ target, e ≠ .link target) :
    fs.walk w n dir (name :: names) = fs.walk w n (dir ++ [name]) names := by
  rw [walk, hdir]
  dsimp only
  rw [if_neg hhere, if_neg hup, he]
  cases e with
  | link target => exact absurd rfl (hlink target)
  | _ => rfl

/-- A link is followed unless it is the last name and the walk stops there. -/
theorem walk_link (hdir : fs.get? dir = some .directory) (hhere : name ≠ ".") (hup : name ≠ "..")
    {target : String} (he : fs.get? (dir ++ [name]) = some (.link target)) (htarget : target ≠ "")
    (hfollow : ¬ (names = [] ∧ (!w.follow) = true)) :
    fs.walk w (n + 1) dir (name :: names) =
      fs.walk w n (if Path.isAbsolute target then [] else dir) (steps target ++ names) := by
  rw [walk, hdir]
  dsimp only
  rw [if_neg hhere, if_neg hup, he]
  dsimp only
  rw [if_neg hfollow, if_neg htarget]

end Steps

/-- A walk ends where the names lead to, if it may follow as many links. -/
theorem walk_eq_ok_iff {n : Nat} {dir loc : Location} {names : List String} :
    fs.walk {} n dir names = .ok loc ↔ ∃ k, k ≤ n ∧ Leads fs k dir names loc := by
  constructor
  · intro h
    fun_induction walk fs {} n dir names with
    | case1 n dir =>
      obtain rfl := Except.ok.inj h
      exact ⟨0, Nat.zero_le n, .nil⟩
    | case2 n dir rest hdir ih =>
      obtain ⟨k, hk, hleads⟩ := ih h
      exact ⟨k, hk, .here hdir hleads⟩
    | case3 n dir rest hdir _ ih =>
      obtain ⟨k, hk, hleads⟩ := ih h
      exact ⟨k, hk, .up hdir hleads⟩
    | case4 _ _ _ _ _ _ _ _ _ hcreate => cases hcreate.2
    | case5 => cases h
    | case6 _ _ _ _ _ _ _ _ _ _ hfollow => cases hfollow.2
    | case7 => cases h
    | case8 => cases h
    | case9 dir name rest hdir hhere hup next target he _ n htarget ih =>
      obtain ⟨k, hk, hleads⟩ := ih h
      exact ⟨k + 1, Nat.succ_le_succ hk, .link hdir hhere hup he htarget hleads⟩
    | case10 n dir name rest hdir hhere hup next e hlink he ih =>
      obtain ⟨k, hk, hleads⟩ := ih h
      exact ⟨k, hk, .step hdir hhere hup he hlink hleads⟩
    | case11 => cases h
  · rintro ⟨k, hk, h⟩
    induction h generalizing n with
    | nil => rw [walk]
    | here hdir _ ih => rw [walk_here hdir, ih hk]
    | up hdir _ ih => rw [walk_up hdir, ih hk]
    | step hdir hhere hup he hlink _ ih => rw [walk_step hdir hhere hup he hlink, ih hk]
    | link hdir hhere hup he htarget _ ih =>
      obtain ⟨n, rfl⟩ := Nat.exists_eq_succ_of_ne_zero (Nat.ne_of_gt (Nat.zero_lt_of_lt hk))
      rw [walk_link hdir hhere hup he htarget (by simp), ih (Nat.le_of_succ_le_succ hk)]

/-! ## The same tree -/

/-- A location holds a file. -/
def FileAt (fs : FileSystem) (loc : Location) : Prop :=
  ∃ content executable, fs.get? loc = some (.file content executable)

/-- What is looked up among the entries in some locations is there if its location is one of
them. -/
theorem lookup_filter (p : Location → Bool) (l : Location) (entries : List (Location × Entry)) :
    (entries.filter fun x => p x.1).lookup l = if p l then entries.lookup l else none := by
  induction entries with
  | nil => cases p l <;> rfl
  | cons x entries ih =>
    obtain ⟨place, e⟩ := x
    by_cases hl : l = place
    · subst hl
      cases hp : p l with
      | true =>
        rw [List.filter_cons_of_pos (by simpa using hp), List.lookup_cons, List.lookup_cons,
          beq_self_eq_true]
        rfl
      | false =>
        rw [hp] at ih
        rw [List.filter_cons_of_neg (by simpa using hp), ih]
        rfl
    · rw [List.lookup_cons, beq_false_of_ne hl, ← ih, List.filter_cons]
      split
      · rw [List.lookup_cons, beq_false_of_ne hl]
      · rfl

/-- The entry at a location is the new one, and the others are as they were. -/
theorem get?_set (fs : FileSystem) {loc : Location} (hloc : loc ≠ []) (e : Entry) (l : Location) :
    (fs.set loc e).get? l = if l = loc then some e else fs.get? l := by
  by_cases hl : l = loc
  · subst hl
    rw [get?, if_neg hloc, if_pos rfl, set, List.lookup_cons, beq_self_eq_true]
  · have hrest : (fs.entries.filter fun x => x.1 ≠ loc).lookup l = fs.entries.lookup l := by
      rw [lookup_filter (fun place => place ≠ loc), if_pos (by simpa using hl)]
    rw [if_neg hl, get?, get?, set, List.lookup_cons, beq_false_of_ne hl]
    exact congrArg (if l = [] then some .directory else ·) hrest

/-- The root is no file. -/
theorem FileAt.ne_nil {loc : Location} (hfile : fs.FileAt loc) : loc ≠ [] := by
  rintro rfl
  obtain ⟨c, x, he⟩ := hfile
  cases he

/-- Two file systems that differ in nothing but in what is in files. -/
def SameTree (fs fs' : FileSystem) : Prop :=
  ∀ l, fs'.get? l = fs.get? l ∨ fs.FileAt l ∧ fs'.FileAt l

namespace SameTree

theorem of_eq (h : ∀ l, fs'.get? l = fs.get? l) : SameTree fs fs' := fun l => .inl (h l)

theorem refl (fs : FileSystem) : SameTree fs fs := of_eq fun _ => rfl

theorem symm (ht : SameTree fs fs') : SameTree fs' fs :=
  fun l => (ht l).imp Eq.symm And.symm

/-- What is no file is the same. -/
theorem kept (ht : SameTree fs fs') {l : Location} {e : Entry} (he : fs.get? l = some e)
    (hfile : ∀ content executable, e ≠ .file content executable) : fs'.get? l = some e := by
  rcases ht l with hsame | ⟨⟨c, x, hfile'⟩, -⟩
  · rwa [hsame]
  · exact absurd (Option.some.inj (he.symm.trans hfile')) (hfile c x)

theorem fileAt (ht : SameTree fs fs') {l : Location} (hfile : fs.FileAt l) : fs'.FileAt l := by
  rcases ht l with hsame | ⟨-, hfile'⟩
  · rwa [FileAt, hsame]
  · exact hfile'

theorem trans {fs'' : FileSystem} (ht : SameTree fs fs') (ht' : SameTree fs' fs'') :
    SameTree fs fs'' := by
  intro l
  rcases ht' l with hsame' | ⟨hfile', hfile''⟩
  · rcases ht l with hsame | ⟨hfile, hfile'⟩
    · exact .inl (hsame'.trans hsame)
    · exact .inr ⟨hfile, by rwa [FileAt, hsame']⟩
  · exact .inr ⟨ht.symm.fileAt hfile', hfile''⟩

end SameTree

/-! ## Cutting a way -/

namespace Leads

variable {k : Nat} {dir loc : Location} {name : String} {xs ys : List String}

theorem append {i j : Nat} {mid : Location} (h : Leads fs i dir xs mid)
    (h' : Leads fs j mid ys loc) : Leads fs (i + j) dir (xs ++ ys) loc := by
  induction h with
  | nil => rwa [Nat.zero_add]
  | here hdir _ ih => exact .here hdir (ih h')
  | up hdir _ ih => exact .up hdir (ih h')
  | step hdir hhere hup he hlink _ ih => exact .step hdir hhere hup he hlink (ih h')
  | @link i _ _ _ target names hdir hhere hup he htarget _ ih =>
    rw [Nat.add_right_comm]
    have hrest := ih h'
    rw [List.append_assoc] at hrest
    exact .link hdir hhere hup he htarget hrest

/-- A way splits at every name.  A link on it is replaced by the names it stands for, so the
induction is over all ways to see the names as two lists. -/
theorem split (h : Leads fs k dir (xs ++ ys) loc) :
    ∃ i j mid, i + j = k ∧ Leads fs i dir xs mid ∧ Leads fs j mid ys loc := by
  obtain ⟨names, hnames⟩ : ∃ names, names = xs ++ ys := ⟨_, rfl⟩
  rw [← hnames] at h
  induction h generalizing xs with
  | @nil dir =>
    obtain ⟨rfl, rfl⟩ := List.append_eq_nil_iff.1 hnames.symm
    exact ⟨0, 0, dir, rfl, .nil, .nil⟩
  | @here k dir loc names hdir hrest ih =>
    rcases List.cons_eq_append_iff.1 hnames with ⟨rfl, rfl⟩ | ⟨xs, rfl, hxs⟩
    · exact ⟨0, k, dir, Nat.zero_add k, .nil, .here hdir hrest⟩
    · obtain ⟨i, j, mid, hk, hxs, hys⟩ := ih hxs
      exact ⟨i, j, mid, hk, .here hdir hxs, hys⟩
  | @up k dir loc names hdir hrest ih =>
    rcases List.cons_eq_append_iff.1 hnames with ⟨rfl, rfl⟩ | ⟨xs, rfl, hxs⟩
    · exact ⟨0, k, dir, Nat.zero_add k, .nil, .up hdir hrest⟩
    · obtain ⟨i, j, mid, hk, hxs, hys⟩ := ih hxs
      exact ⟨i, j, mid, hk, .up hdir hxs, hys⟩
  | @step k dir loc name names e hdir hhere hup he hlink hrest ih =>
    rcases List.cons_eq_append_iff.1 hnames with ⟨rfl, rfl⟩ | ⟨xs, rfl, hxs⟩
    · exact ⟨0, k, dir, Nat.zero_add k, .nil, .step hdir hhere hup he hlink hrest⟩
    · obtain ⟨i, j, mid, hk, hxs, hys⟩ := ih hxs
      exact ⟨i, j, mid, hk, .step hdir hhere hup he hlink hxs, hys⟩
  | @link k dir loc name target names hdir hhere hup he htarget hrest ih =>
    rcases List.cons_eq_append_iff.1 hnames with ⟨rfl, rfl⟩ | ⟨xs, rfl, rfl⟩
    · exact ⟨0, k + 1, dir, Nat.zero_add _, .nil, .link hdir hhere hup he htarget hrest⟩
    · obtain ⟨i, j, mid, hk, hxs, hys⟩ := ih (List.append_assoc ..).symm
      exact ⟨i + 1, j, mid, by omega, .link hdir hhere hup he htarget hxs, hys⟩

theorem append_iff : Leads fs k dir (xs ++ ys) loc ↔
    ∃ i j mid, i + j = k ∧ Leads fs i dir xs mid ∧ Leads fs j mid ys loc :=
  ⟨split, fun ⟨_, _, _, hk, hxs, hys⟩ => hk ▸ hxs.append hys⟩

/-- Names lead on from directories only. -/
theorem directory (h : Leads fs k dir (name :: xs) loc) : fs.get? dir = some .directory := by
  cases h <;> assumption

/-- Names lead to one place. -/
theorem unique {k' : Nat} {loc' : Location} (h : Leads fs k dir xs loc)
    (h' : Leads fs k' dir xs loc') : loc' = loc := by
  have hwalk := walk_eq_ok_iff.2 ⟨k, Nat.le_max_left k k', h⟩
  have hwalk' := walk_eq_ok_iff.2 ⟨k', Nat.le_max_right k k', h'⟩
  exact Except.ok.inj (hwalk'.symm.trans hwalk)

/-- Where names lead is a matter of the entries, and not of what is in files. -/
theorem sameTree (ht : SameTree fs fs') (h : Leads fs k dir xs loc) : Leads fs' k dir xs loc := by
  induction h with
  | nil => exact .nil
  | here hdir _ ih => exact .here (ht.kept hdir nofun) ih
  | up hdir _ ih => exact .up (ht.kept hdir nofun) ih
  | step hdir hhere hup he hlink _ ih =>
    rcases ht _ with hsame | ⟨-, c, x, he'⟩
    · exact .step (ht.kept hdir nofun) hhere hup (hsame.trans he) hlink ih
    · exact .step (ht.kept hdir nofun) hhere hup he' nofun ih
  | link hdir hhere hup he htarget _ ih =>
    exact .link (ht.kept hdir nofun) hhere hup (ht.kept he nofun) htarget ih

/-! ### Dots -/

theorem nil_iff : Leads fs k dir [] loc ↔ k = 0 ∧ loc = dir := by
  constructor
  · intro h
    cases h
    exact ⟨rfl, rfl⟩
  · rintro ⟨rfl, rfl⟩
    exact .nil

theorem here_iff :
    Leads fs k dir ("." :: xs) loc ↔ fs.get? dir = some .directory ∧ Leads fs k dir xs loc := by
  constructor
  · intro h
    obtain ⟨x, hx⟩ : ∃ x, x = "." := ⟨_, rfl⟩
    rw [← hx] at h
    cases h with
    | here hdir h => exact ⟨hdir, h⟩
    | up => exact absurd hx (by decide)
    | step _ hhere => exact absurd hx hhere
    | link _ hhere => exact absurd hx hhere
  · rintro ⟨hdir, h⟩
    exact .here hdir h

theorem up_iff : Leads fs k dir (".." :: xs) loc ↔
    fs.get? dir = some .directory ∧ Leads fs k dir.dropLast xs loc := by
  constructor
  · intro h
    obtain ⟨x, hx⟩ : ∃ x, x = ".." := ⟨_, rfl⟩
    rw [← hx] at h
    cases h with
    | here => exact absurd hx (by decide)
    | up hdir h => exact ⟨hdir, h⟩
    | step _ _ hup => exact absurd hx hup
    | link _ _ hup => exact absurd hx hup
  · rintro ⟨hdir, h⟩
    exact .up hdir h

/-- Dots before a last name do not matter. -/
theorem filter_iff : Leads fs k dir (xs.filter (· ≠ ".") ++ [name]) loc ↔
    Leads fs k dir (xs ++ [name]) loc := by
  induction xs generalizing k dir with
  | nil => exact Iff.rfl
  | cons x xs ih =>
    by_cases hx : x = "."
    · subst hx
      rw [List.filter_cons_of_neg (by simp), ih, List.cons_append, here_iff]
      refine ⟨fun h => ⟨?_, h⟩, And.right⟩
      -- the names that follow lead on from a directory
      cases xs <;> exact h.directory
    · rw [List.filter_cons_of_pos (by simpa using hx)]
      have hcut : ∀ ys : List String, x :: ys ++ [name] = [x] ++ (ys ++ [name]) := fun _ => rfl
      rw [hcut, hcut, append_iff, append_iff]
      simp only [ih]

/-- A dot at the end asks for a directory. -/
theorem snoc_here_iff : Leads fs k dir (xs ++ ["."]) loc ↔
    Leads fs k dir xs loc ∧ fs.get? loc = some .directory := by
  rw [append_iff]
  simp only [here_iff, nil_iff]
  constructor
  · rintro ⟨i, _, mid, rfl, hxs, hmid, rfl, rfl⟩
    exact ⟨hxs, hmid⟩
  · rintro ⟨h, hloc⟩
    exact ⟨k, 0, loc, rfl, h, hloc, rfl, rfl⟩

end Leads

/-! ## Ways without links -/

/-- Everything is in a directory and has a name that the operating system takes. -/
structure Sound (fs : FileSystem) : Prop where
  parent {dir : Location} {name : String} {e : Entry} : fs.get? (dir ++ [name]) = some e →
    fs.get? dir = some .directory
  isName {dir : Location} {name : String} {e : Entry} : fs.get? (dir ++ [name]) = some e →
    Path.IsName name
  noNul {dir : Location} {name : String} {e : Entry} : fs.get? (dir ++ [name]) = some e →
    '\x00' ∉ name.toList

namespace Sound

variable {dir loc : Location} {name : String} {k : Nat} {e : Entry} {ys : List String}

/-- A file system is sound if its entries are. -/
theorem of_entries (h : ∀ x ∈ fs.entries, fs.get? x.1.dropLast = some .directory ∧
    ∀ name ∈ x.1.getLast?, Path.IsName name ∧ '\x00' ∉ name.toList) : fs.Sound := by
  have hentry : ∀ {dir : Location} {name : String} {e : Entry}, fs.get? (dir ++ [name]) = some e →
      fs.get? dir = some .directory ∧ Path.IsName name ∧ '\x00' ∉ name.toList := by
    intro dir name e he
    rw [get?, if_neg (by simp)] at he
    obtain ⟨before, after, hentries, -⟩ := List.lookup_eq_some_iff.1 he
    obtain ⟨hparent, hname⟩ := h (dir ++ [name], e) (by rw [hentries]; simp)
    rw [List.dropLast_concat] at hparent
    exact ⟨hparent, hname name List.getLast?_concat⟩
  exact ⟨fun he => (hentry he).1, fun he => (hentry he).2.1, fun he => (hentry he).2.2⟩

theorem above (hs : fs.Sound) {xs : Location} (h : fs.get? (dir ++ xs) = some .directory) :
    fs.get? dir = some .directory := by
  induction xs generalizing dir with
  | nil => rwa [List.append_nil] at h
  | cons x xs ih =>
    have hx : fs.get? (dir ++ [x]) = some .directory :=
      ih (by rwa [List.append_assoc, List.singleton_append])
    exact hs.parent hx

/-- Every name on the way down to a directory is one of something in a directory. -/
theorem get?_of_mem (hs : fs.Sound) (h : fs.get? loc = some .directory) (hname : name ∈ loc) :
    ∃ dir, fs.get? (dir ++ [name]) = some .directory := by
  obtain ⟨dir, rest, rfl⟩ := List.append_of_mem hname
  exact ⟨dir, hs.above (by rwa [List.append_assoc, List.singleton_append])⟩

theorem isName_of_mem (hs : fs.Sound) (h : fs.get? loc = some .directory) :
    ∀ n ∈ loc, Path.IsName n := by
  intro n hn
  obtain ⟨_, hdir⟩ := hs.get?_of_mem h hn
  exact hs.isName hdir

theorem noNul_of_mem (hs : fs.Sound) (h : fs.get? loc = some .directory) :
    ∀ n ∈ loc, '\x00' ∉ n.toList := by
  intro n hn
  obtain ⟨_, hdir⟩ := hs.get?_of_mem h hn
  exact hs.noNul hdir

end Sound

namespace Leads

variable {k : Nat} {dir loc : Location} {name : String} {ys : List String}

/-- A name of something that is no link leads into it. -/
theorem step_iff {e : Entry} (hdir : fs.get? dir = some .directory) (hhere : name ≠ ".")
    (hup : name ≠ "..") (he : fs.get? (dir ++ [name]) = some e)
    (hlink : ∀ target, e ≠ .link target) :
    Leads fs k dir (name :: ys) loc ↔ Leads fs k (dir ++ [name]) ys loc := by
  constructor
  · intro h
    cases h with
    | here => exact absurd rfl hhere
    | up => exact absurd rfl hup
    | step _ _ _ _ _ h => exact h
    | link _ _ _ he' => exact absurd (Option.some.inj (he.symm.trans he')) (hlink _)
  · exact .step hdir hhere hup he hlink

/-- A name of a directory leads into it. -/
theorem enter_iff (hdir : fs.get? dir = some .directory)
    (h : Path.IsName name ∧ fs.get? (dir ++ [name]) = some .directory) :
    Leads fs k dir (name :: ys) loc ↔ Leads fs k (dir ++ [name]) ys loc :=
  step_iff hdir h.1.not_here h.1.not_up h.2 nofun

/-- A name of a link leads on by the names that the link stands for. -/
theorem link_iff {target : String} (hdir : fs.get? dir = some .directory) (hhere : name ≠ ".")
    (hup : name ≠ "..") (he : fs.get? (dir ++ [name]) = some (.link target)) :
    Leads fs k dir (name :: ys) loc ↔ ∃ j, k = j + 1 ∧ target ≠ "" ∧
      Leads fs j (if Path.isAbsolute target then [] else dir) (steps target ++ ys) loc := by
  constructor
  · intro h
    cases h with
    | here => exact absurd rfl hhere
    | up => exact absurd rfl hup
    | step _ _ _ he' hlink => exact absurd (Option.some.inj (he'.symm.trans he)) (hlink _)
    | link _ _ _ he' htarget h =>
      obtain rfl := Entry.link.inj (Option.some.inj (he'.symm.trans he))
      exact ⟨_, rfl, htarget, h⟩
  · rintro ⟨j, rfl, htarget, h⟩
    exact .link hdir hhere hup he htarget h

/-- One name leads to what has it, unless that is a link. -/
theorem of_single (hname : Path.IsName name) (h : Leads fs k dir [name] loc) :
    (∃ target, fs.get? (dir ++ [name]) = some (.link target)) ∨
      loc = dir ++ [name] ∧ ∃ e, fs.get? (dir ++ [name]) = some e := by
  cases h with
  | here => exact absurd rfl hname.not_here
  | up => exact absurd rfl hname.not_up
  | step _ _ _ he _ h => exact .inr ⟨(nil_iff.1 h).2, _, he⟩
  | link _ _ _ he => exact .inl ⟨_, he⟩

/-- The names of a directory lead down to it. -/
theorem down_iff (hs : fs.Sound) {xs : Location} (h : fs.get? (dir ++ xs) = some .directory) :
    Leads fs k dir (xs ++ ys) loc ↔ Leads fs k (dir ++ xs) ys loc := by
  induction xs generalizing dir with
  | nil => rw [List.append_nil, List.nil_append]
  | cons x xs ih =>
    have hx : fs.get? (dir ++ [x] ++ xs) = some .directory := by
      rwa [List.append_assoc, List.singleton_append]
    have hdir := hs.above hx
    rw [List.cons_append, enter_iff (hs.parent hdir) ⟨hs.isName hdir, hdir⟩, ih hx,
      List.append_assoc, List.singleton_append]

end Leads

/-- No names lead on from a file. -/
theorem Leads.eq_of_file {k : Nat} {dir loc : Location} {names : List String}
    (h : Leads fs k dir names loc) (hfile : fs.FileAt dir) : loc = dir := by
  obtain ⟨_, _, he⟩ := hfile
  cases names with
  | nil => exact (Leads.nil_iff.1 h).2
  | cons name names => cases he.symm.trans h.directory

/-- Where the same names lead in two file systems.  The first one's entries are in the second one
too, but for some that have become files; as the second way ends at a directory it does not meet
them. -/
theorem Leads.agree {k k' : Nat} {dir loc loc' : Location} {names : List String}
    (h : Leads fs k dir names loc) (h' : Leads fs' k' dir names loc')
    (hkept : ∀ l e, fs.get? l = some e → fs'.get? l = some e ∨ fs'.FileAt l)
    (hdir : fs'.get? loc' = some .directory) : loc' = loc := by
  -- a file that has come up ends the second way
  have hnoFile : ∀ {k'' : Nat} {l : Location} {name : String} {names : List String},
      Leads fs' k'' l (name :: names) loc' → name ≠ "." → name ≠ ".." →
        ¬ fs'.FileAt (l ++ [name]) := by
    rintro _ l name _ h' hhere hup ⟨content, executable, he⟩
    have hend := (step_iff h'.directory hhere hup he nofun).1 h'
    rw [hend.eq_of_file ⟨content, executable, he⟩, he] at hdir
    cases hdir
  induction h generalizing k' with
  | nil => exact (Leads.nil_iff.1 h').2
  | here _ _ ih => exact ih (Leads.here_iff.1 h').2
  | up _ _ ih => exact ih (Leads.up_iff.1 h').2
  | step _ hhere hup he hlink _ ih =>
    rcases hkept _ _ he with he' | hfile
    · exact ih ((step_iff h'.directory hhere hup he' hlink).1 h')
    · exact absurd hfile (hnoFile h' hhere hup)
  | link _ hhere hup he _ _ ih =>
    rcases hkept _ _ he with he' | hfile
    · obtain ⟨_, -, -, h'⟩ := (link_iff h'.directory hhere hup he').1 h'
      exact ih h'
    · exact absurd hfile (hnoFile h' hhere hup)

end LintHooks.FileSystem
