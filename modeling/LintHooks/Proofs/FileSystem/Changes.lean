import LintHooks.Proofs.Basic
import LintHooks.Proofs.FileSystem.Names
set_option autoImplicit false

/-!
# File systems: what comes and what goes

Opening a file and making directories only add entries, and removing only takes some away.  A way
that there is in one file system is there in every other one with the same entries and more, so
adding leaves all ways as they were, and after removing a path leads where it led or nowhere.

The main statements are one for each operation: `Rooted.openOrCreate`, `Rooted.makeDirectory` and
`Rooted.makeDirectories` say that the file system has `Grown` and by which kind of entries,
`removeTree_eq_ok` and `removeFile_eq_ok` what has been taken away.  Those that add rely on where a
walk ends.  It ends at something that is there, or at a place which is `Fresh` (`Rooted.walk_end`,
`Rooted.locate_end`).  Where more has come all ways are as they were (`Leads.mono`), so that the
path leads afterwards to what has been put there (`locate_of_locate`).
-/

namespace LintHooks.FileSystem

variable {fs fs' fs'' : FileSystem}

/-! ## Less and more -/

/-- What is in one file system is in the other one, too. -/
def Within (fs fs' : FileSystem) : Prop := ∀ l e, fs.get? l = some e → fs'.get? l = some e

theorem Within.refl (fs : FileSystem) : Within fs fs := fun _ _ => id

theorem Within.trans (h : Within fs fs') (h' : Within fs' fs'') : Within fs fs'' :=
  fun l e he => h' l e (h l e he)

theorem Within.fileAt {l : Location} (h : Within fs fs') (hfile : fs.FileAt l) : fs'.FileAt l := by
  obtain ⟨c, x, he⟩ := hfile
  exact ⟨c, x, h l _ he⟩

/-- More entries leave all ways as they are. -/
theorem Leads.mono {k : Nat} {dir loc : Location} {xs : List String} (hw : Within fs fs')
    (h : Leads fs k dir xs loc) : Leads fs' k dir xs loc := by
  induction h with
  | nil => exact .nil
  | here hdir _ ih => exact .here (hw _ _ hdir) ih
  | up hdir _ ih => exact .up (hw _ _ hdir) ih
  | step hdir hhere hup he hlink _ ih => exact .step (hw _ _ hdir) hhere hup (hw _ _ he) hlink ih
  | link hdir hhere hup he htarget _ ih =>
    exact .link (hw _ _ hdir) hhere hup (hw _ _ he) htarget ih

theorem locate_mono {workDir loc : Location} {p : String} (hw : Within fs fs')
    (h : fs.locate workDir p = .ok loc) : fs'.locate workDir p = .ok loc := by
  obtain ⟨hp, hnul, k, hk, hleads⟩ := locate_eq_ok_iff.1 h
  exact locate_eq_ok_iff.2 ⟨hp, hnul, k, hk, hleads.mono hw⟩

/-- What leads to no directory does not when there is less. -/
theorem Within.isDirectory_eq_false {workDir : Location} {p : String} (h : Within fs' fs)
    (hfile : fs.isDirectory workDir p = false) : fs'.isDirectory workDir p = false := by
  rw [← Bool.not_eq_true] at hfile ⊢
  refine mt (fun hdirectory => ?_) hfile
  obtain ⟨loc, hlocate, hloc⟩ := isDirectory_iff.1 hdirectory
  exact isDirectory_iff.2 ⟨loc, locate_mono h hlocate, h _ _ hloc⟩

/-- Everything is in a directory and has the name of something in one. -/
structure Rooted (fs : FileSystem) : Prop where
  parent {dir : Location} {name : String} {e : Entry} : fs.get? (dir ++ [name]) = some e →
    fs.get? dir = some .directory
  isName {dir : Location} {name : String} {e : Entry} : fs.get? (dir ++ [name]) = some e →
    Path.IsName name

theorem Sound.rooted (hs : fs.Sound) : fs.Rooted := ⟨hs.parent, hs.isName⟩

/-- A directory is in directories. -/
theorem Rooted.dropLast (hr : fs.Rooted) {dir : Location} (hdir : fs.get? dir = some .directory) :
    fs.get? dir.dropLast = some .directory := by
  rcases List.eq_nil_or_concat dir with rfl | ⟨above, name, rfl⟩
  · exact hdir
  · rw [List.concat_eq_append] at hdir ⊢
    rw [List.dropLast_concat]
    exact hr.parent hdir

/-- Something is above what is there. -/
theorem Rooted.above (hr : fs.Rooted) {dir xs : Location} {e : Entry}
    (h : fs.get? (dir ++ xs) = some e) : (fs.get? dir).isSome = true := by
  induction xs generalizing dir with
  | nil =>
    rw [List.append_nil] at h
    rw [h]
    rfl
  | cons x xs ih =>
    have hx : (fs.get? (dir ++ [x])).isSome = true :=
      ih (by rwa [List.append_assoc, List.singleton_append])
    obtain ⟨e', he'⟩ := Option.isSome_iff_exists.1 hx
    rw [hr.parent he']
    rfl

/-- What something is below is a directory. -/
theorem Rooted.directory_of_below (hr : fs.Rooted) {loc xs : Location} {name : String}
    {e : Entry} (h : fs.get? (loc ++ name :: xs) = some e) : fs.get? loc = some .directory := by
  rw [← List.singleton_append, ← List.append_assoc] at h
  obtain ⟨_, he⟩ := Option.isSome_iff_exists.1 (hr.above h)
  exact hr.parent he

theorem Rooted.isName_of_mem_children (hr : fs.Rooted) {dir : Location} {name : String}
    (h : name ∈ fs.children dir) : Path.IsName name := by
  obtain ⟨e, he⟩ := Option.isSome_iff_exists.1 (mem_children.1 h)
  exact hr.isName he

/-- A file system with new entries: all that was there is there still, and what has come is of a
certain kind. -/
structure Grown (new : Location → Entry → Prop) (fs fs' : FileSystem) : Prop where
  kept : Within fs fs'
  come : ∀ l e, fs'.get? l = some e → fs.get? l = some e ∨ fs.get? l = none ∧ new l e

namespace Grown

variable {new new' : Location → Entry → Prop}

theorem refl (fs : FileSystem) : Grown new fs fs := ⟨Within.refl fs, fun _ _ => .inl⟩

theorem imp (h : Grown new fs fs') (hnew : ∀ l e, new l e → new' l e) : Grown new' fs fs' where
  kept := h.kept
  come l e he := (h.come l e he).imp_right fun ⟨hnone, he⟩ => ⟨hnone, hnew l e he⟩

theorem trans (h : Grown new fs fs') (h' : Grown new fs' fs'') : Grown new fs fs'' where
  kept := h.kept.trans h'.kept
  come l e he := by
    rcases h'.come l e he with he | ⟨hnone, hnew⟩
    · exact h.come l e he
    · refine .inr ⟨?_, hnew⟩
      cases hl : fs.get? l with
      | none => rfl
      | some e' =>
        rw [h.kept l e' hl] at hnone
        cases hnone

end Grown

/-! ## Places -/

section Places

variable {loc : Location}

/-- There is something at a location, and it is no link. -/
def Solid (fs : FileSystem) (loc : Location) : Prop :=
  ∃ e, fs.get? loc = some e ∧ ∀ target, e ≠ .link target

theorem solid_of_directory (h : fs.get? loc = some .directory) : fs.Solid loc := ⟨_, h, nofun⟩

theorem FileAt.solid (h : fs.FileAt loc) : fs.Solid loc := by
  obtain ⟨c, x, he⟩ := h
  exact ⟨_, he, nofun⟩

/-- A location that a new entry can be put in: nothing is there yet, and it is in a directory. -/
inductive Fresh (fs : FileSystem) : Location → Prop where
  | intro {dir : Location} {name : String} : fs.get? (dir ++ [name]) = none →
    fs.get? dir = some .directory → Path.IsName name → Fresh fs (dir ++ [name])

namespace Fresh

theorem get?_eq_none (h : fs.Fresh loc) : fs.get? loc = none := by
  cases h
  assumption

theorem ne_nil (h : fs.Fresh loc) : loc ≠ [] := by
  obtain ⟨-, -, -⟩ := h
  simp

theorem grown (h : fs.Fresh loc) (e : Entry) :
    Grown (fun l e' => l = loc ∧ e' = e) fs (fs.set loc e) := by
  have hget := fs.get?_set h.ne_nil e
  constructor
  · intro l e' he'
    rw [hget, if_neg]
    · exact he'
    · rintro rfl
      rw [h.get?_eq_none] at he'
      cases he'
  · intro l e' he'
    rw [hget] at he'
    split at he'
    · next hl =>
      cases he'
      exact .inr ⟨hl ▸ h.get?_eq_none, hl, rfl⟩
    · exact .inl he'

theorem rooted (h : fs.Fresh loc) (hr : fs.Rooted) (e : Entry) : (fs.set loc e).Rooted := by
  have hgrown := h.grown e
  obtain ⟨-, hdir, hname⟩ := h
  constructor
  · intro dir' name' e' he'
    rcases hgrown.come _ _ he' with he' | ⟨-, hl, -⟩
    · exact hgrown.kept _ _ (hr.parent he')
    · obtain ⟨rfl, -⟩ := List.append_inj' hl rfl
      exact hgrown.kept _ _ hdir
  · intro dir' name' e' he'
    rcases hgrown.come _ _ he' with he' | ⟨-, hl, -⟩
    · exact hr.isName he'
    · obtain ⟨-, hname'⟩ := List.append_inj' hl rfl
      cases hname'
      exact hname

end Fresh

end Places

/-- What is left without a location and all below it. -/
theorem get?_eraseTree (fs : FileSystem) {loc : Location} (hloc : loc ≠ []) (l : Location) :
    (fs.eraseTree loc).get? l = if loc <+: l then none else fs.get? l := by
  rw [get?, get?]
  by_cases hl : l = []
  · subst hl
    rw [if_pos rfl, if_pos rfl, if_neg fun hbegins => hloc (List.prefix_nil.1 hbegins)]
  · rw [if_neg hl, if_neg hl, eraseTree, lookup_filter fun place => ¬ loc <+: place]
    by_cases hbegins : loc <+: l <;> simp [hbegins]

theorem within_eraseTree (fs : FileSystem) {loc : Location} (hloc : loc ≠ []) :
    Within (fs.eraseTree loc) fs := by
  intro l e he
  rw [get?_eraseTree fs hloc] at he
  split at he
  · cases he
  · exact he

/-- What is above something that is left is left. -/
theorem Sound.eraseTree (hs : fs.Sound) {loc : Location} (hloc : loc ≠ []) :
    (fs.eraseTree loc).Sound := by
  have hwithin := within_eraseTree fs hloc
  refine ⟨fun {dir name e} he => ?_, fun he => hs.isName (hwithin _ _ he),
    fun he => hs.noNul (hwithin _ _ he)⟩
  rw [get?_eraseTree fs hloc] at he ⊢
  split at he
  · cases he
  · next hnot =>
    rw [if_neg fun hbegins => hnot (hbegins.trans (List.prefix_append dir [name]))]
    exact hs.parent he

/-! ## Where walks end -/

section Walks

variable {w : Walk} {n : Nat} {dir loc : Location} {name : String} {xs ys : List String}

/-- A walk can be cut before its last names.  The first ones are walked as if they were all, with
links followed and nothing missing. -/
theorem walk_append (hys : ys ≠ []) (h : fs.walk w n dir (xs ++ ys) = .ok loc) :
    ∃ k mid, k ≤ n ∧ Leads fs k dir xs mid ∧ fs.walk w (n - k) mid ys = .ok loc := by
  have hrest (rest : List String) : rest ++ ys ≠ [] := List.append_ne_nil_of_right_ne_nil rest hys
  induction n, dir, xs using walk.induct fs {} with
  | case1 n dir => exact ⟨0, dir, Nat.zero_le n, .nil, h⟩
  | case2 n dir rest hdir ih =>
    rw [List.cons_append, walk_here hdir] at h
    obtain ⟨k, mid, hk, hleads, h⟩ := ih h
    exact ⟨k, mid, hk, .here hdir hleads, h⟩
  | case3 n dir rest hdir _ ih =>
    rw [List.cons_append, walk_up hdir] at h
    obtain ⟨k, mid, hk, hleads, h⟩ := ih h
    exact ⟨k, mid, hk, .up hdir hleads, h⟩
  | case4 _ _ _ _ _ _ _ _ _ hcreate => cases hcreate.2
  | case5 n dir name rest hdir hhere hup next hnone _ =>
    rw [List.cons_append, walk, hdir] at h
    simp only [if_neg hhere, if_neg hup] at h
    rw [hnone] at h
    simp [hrest] at h
  | case6 _ _ _ _ _ _ _ _ _ _ hfollow => cases hfollow.2
  | case7 dir name rest hdir hhere hup next target he _ =>
    rw [List.cons_append, walk, hdir] at h
    simp only [if_neg hhere, if_neg hup] at h
    rw [he] at h
    simp [hrest] at h
  | case8 dir name rest hdir hhere hup next _ n he =>
    rw [List.cons_append, walk, hdir] at h
    simp only [if_neg hhere, if_neg hup] at h
    rw [he] at h
    simp [hrest] at h
  | case9 dir name rest hdir hhere hup next target he _ n htarget ih =>
    have hfollow : ¬ (rest ++ ys = [] ∧ (!w.follow) = true) := fun hlast => hrest rest hlast.1
    rw [List.cons_append, walk_link hdir hhere hup he htarget hfollow, ← List.append_assoc] at h
    obtain ⟨k, mid, hk, hleads, h⟩ := ih h
    rw [← Nat.succ_sub_succ n k] at h
    exact ⟨k + 1, mid, Nat.succ_le_succ hk, .link hdir hhere hup he htarget hleads, h⟩
  | case10 n dir name rest hdir hhere hup next e hlink he ih =>
    rw [List.cons_append, walk_step hdir hhere hup he hlink] at h
    obtain ⟨k, mid, hk, hleads, h⟩ := ih h
    exact ⟨k, mid, hk, .step hdir hhere hup he hlink hleads, h⟩
  | case11 n dir name rest hdir =>
    rw [List.cons_append, walk] at h
    split at h
    · next hdir' => exact absurd hdir' hdir
    · cases h

/-- Names are walked from directories only. -/
theorem get?_of_walk (h : fs.walk w n dir (name :: xs) = .ok loc) :
    fs.get? dir = some .directory := by
  rw [walk] at h
  split at h
  · assumption
  · cases h

/-- A walk that does not follow its last name ends at what has that name. -/
theorem walk_last (hname : Path.IsName name)
    (h : fs.walk { follow := false } n dir [name] = .ok loc) :
    fs.get? dir = some .directory ∧ loc = dir ++ [name] ∧ (fs.get? loc).isSome = true := by
  have hdir := get?_of_walk h
  refine ⟨hdir, ?_⟩
  rw [walk, hdir] at h
  simp only [if_neg hname.not_here, if_neg hname.not_up] at h
  cases he : fs.get? (dir ++ [name]) with
  | none =>
    rw [he] at h
    simp at h
  | some e =>
    have hloc : loc = dir ++ [name] := by
      rw [he] at h
      cases e with
      | link target => simpa using h.symm
      | _ =>
        simp only [walk] at h
        exact (Except.ok.inj h).symm
    exact ⟨hloc, by rw [hloc, he]; rfl⟩

theorem single_of_mem_steps {p x : String} (hx : x ∈ steps p) : x ≠ "" ∧ '/' ∉ x.toList := by
  rw [steps_eq, List.mem_append] at hx
  rcases hx with hx | hx
  · have hsegment := List.mem_filter.1 hx
    exact ⟨by simpa using hsegment.2, Path.noSeparator_of_mem_segments hsegment.1⟩
  · obtain ⟨-, rfl⟩ : p.toList.getLast? = some '/' ∧ x = "." := by
      split at hx
      · exact ⟨‹_›, List.mem_singleton.1 hx⟩
      · cases hx
    decide

/-- A walk ends at what is there, which is no link if links are followed, or where something may
come. -/
theorem Rooted.walk_end (hr : fs.Rooted) (hdir : fs.Solid dir)
    (hxs : ∀ x ∈ xs, x ≠ "" ∧ '/' ∉ x.toList) (h : fs.walk w n dir xs = .ok loc) :
    (∃ e, fs.get? loc = some e ∧ (w.follow = true → ∀ target, e ≠ .link target)) ∨
      w.create = true ∧ fs.Fresh loc := by
  fun_induction walk fs w n dir xs with
  | case1 n dir =>
    cases h
    obtain ⟨e, he, hlink⟩ := hdir
    exact .inl ⟨e, he, fun _ => hlink⟩
  | case2 n dir rest _ ih => exact ih hdir (List.forall_mem_cons.1 hxs).2 h
  | case3 n dir rest hdirectory _ ih =>
    exact ih (solid_of_directory (hr.dropLast hdirectory)) (List.forall_mem_cons.1 hxs).2 h
  | case4 n dir name rest hdirectory hhere hup next hnone hcreate =>
    obtain rfl : dir ++ [name] = loc := Except.ok.inj h
    obtain ⟨hempty, hseparator⟩ := (List.forall_mem_cons.1 hxs).1
    exact .inr ⟨hcreate.2, .intro hnone hdirectory ⟨hempty, hhere, hup, hseparator⟩⟩
  | case5 => cases h
  | case6 n dir name rest _ _ _ next target he hfollow =>
    obtain rfl : dir ++ [name] = loc := Except.ok.inj h
    refine .inl ⟨_, he, fun htrue => ?_⟩
    rw [htrue] at hfollow
    cases hfollow.2
  | case7 => cases h
  | case8 => cases h
  | case9 dir name rest hdirectory _ _ next target _ _ n _ ih =>
    refine ih (solid_of_directory ?_) ?_ h
    · split
      · rfl
      · exact hdirectory
    · intro x hx
      rcases List.mem_append.1 hx with hx | hx
      · exact single_of_mem_steps hx
      · exact (List.forall_mem_cons.1 hxs).2 x hx
  | case10 n dir name rest _ _ _ next e hlink he ih =>
    exact ih ⟨e, he, hlink⟩ (List.forall_mem_cons.1 hxs).2 h
  | case11 => cases h

/-- Where a walk has ended the names lead once something is there. -/
theorem leads_of_walk {create : Bool} (hw : Within fs fs') (hloc : fs'.Solid loc)
    (h : fs.walk { follow := true, create } n dir xs = .ok loc) :
    ∃ k, k ≤ n ∧ Leads fs' k dir xs loc := by
  fun_induction walk fs { follow := true, create } n dir xs with
  | case1 n dir =>
    cases h
    exact ⟨0, Nat.zero_le n, .nil⟩
  | case2 n dir rest hdir ih =>
    obtain ⟨k, hk, hleads⟩ := ih h
    exact ⟨k, hk, .here (hw _ _ hdir) hleads⟩
  | case3 n dir rest hdir _ ih =>
    obtain ⟨k, hk, hleads⟩ := ih h
    exact ⟨k, hk, .up (hw _ _ hdir) hleads⟩
  | case4 n dir name rest hdir hhere hup next _ hcreate =>
    obtain rfl : dir ++ [name] = loc := Except.ok.inj h
    obtain ⟨e, he, hlink⟩ := hloc
    obtain ⟨rfl, -⟩ := hcreate
    exact ⟨0, Nat.zero_le n, .step (hw _ _ hdir) hhere hup he hlink .nil⟩
  | case5 => cases h
  | case6 _ _ _ _ _ _ _ _ _ _ hfollow => cases hfollow.2
  | case7 => cases h
  | case8 => cases h
  | case9 dir name rest hdir hhere hup next target he _ n htarget ih =>
    obtain ⟨k, hk, hleads⟩ := ih h
    exact ⟨k + 1, Nat.succ_le_succ hk, .link (hw _ _ hdir) hhere hup (hw _ _ he) htarget hleads⟩
  | case10 n dir name rest hdir hhere hup next e hlink he ih =>
    obtain ⟨k, hk, hleads⟩ := ih h
    exact ⟨k, hk, .step (hw _ _ hdir) hhere hup (hw _ _ he) hlink hleads⟩
  | case11 => cases h

/-- From the root one walks down to a directory by its names. -/
theorem Sound.walk_down (hs : fs.Sound) (h : fs.get? (loc ++ xs) = some .directory) :
    fs.walk w n loc (xs ++ ys) = fs.walk w n (loc ++ xs) ys := by
  induction xs generalizing loc with
  | nil => rw [List.append_nil, List.nil_append]
  | cons x xs ih =>
    have hx : fs.get? (loc ++ [x] ++ xs) = some .directory := by
      rwa [List.append_assoc, List.singleton_append]
    have hentry := hs.above hx
    have hname := hs.isName hentry
    rw [List.cons_append, walk_step (hs.parent hentry) hname.not_here hname.not_up hentry nofun,
      ih hx, List.append_assoc, List.singleton_append]

end Walks

/-! ## What the operations do -/

section Operations

variable {workDir loc : Location} {p : String}

/-- A path that is not empty has something to walk by. -/
theorem steps_ne_nil (hp : p ≠ "") : steps p ≠ [] := by
  rw [steps_eq]
  split
  · exact List.append_ne_nil_of_right_ne_nil _ (List.cons_ne_nil "." [])
  · next hlast =>
    rw [List.append_nil]
    intro hnames
    have hchars : p.toList ≠ [] := fun hnil => hp (String.toList_eq_nil_iff.1 hnil)
    -- the last character is no separator, so it is in a name
    rw [List.getLast?_eq_some_getLast hchars] at hlast
    obtain ⟨x, hx, hc⟩ := (Path.mem_segments (fun hc => hlast (congrArg some hc))).1
      (List.getLast_mem hchars)
    have hempty : x ≠ "" := by
      rintro rfl
      cases hc
    have hmem : x ∈ names p := List.mem_filter.2 ⟨hx, by simpa using hempty⟩
    rw [hnames] at hmem
    cases hmem

theorem walk_of_locate {w : Walk} (h : fs.locate workDir p w = .ok loc) :
    p ≠ "" ∧ '\x00' ∉ p.toList ∧ fs.walk w 40 (origin workDir p) (steps p) = .ok loc := by
  rw [locate] at h
  split at h
  · cases h
  split at h
  · cases h
  · next hp hnul => exact ⟨hp, by simpa using hnul, h⟩

/-- A path leads to what is there, which is no link if links are followed, or where something may
come. -/
theorem Rooted.locate_end (hr : fs.Rooted) {w : Walk} (h : fs.locate workDir p w = .ok loc) :
    (∃ e, fs.get? loc = some e ∧ (w.follow = true → ∀ target, e ≠ .link target)) ∨
      w.create = true ∧ fs.Fresh loc := by
  obtain ⟨hp, -, h⟩ := walk_of_locate h
  obtain ⟨x, xs, hsteps⟩ := List.exists_cons_of_ne_nil (steps_ne_nil hp)
  have hdir : fs.get? (origin workDir p) = some .directory := by
    rw [hsteps] at h
    exact get?_of_walk h
  exact hr.walk_end (solid_of_directory hdir) (fun x => single_of_mem_steps) h

/-- A path leads to what has come where it ended. -/
theorem locate_of_locate (hw : Within fs fs') (hloc : fs'.Solid loc) {create : Bool}
    (h : fs.locate workDir p { follow := true, create } = .ok loc) :
    fs'.locate workDir p = .ok loc := by
  obtain ⟨hp, hnul, h⟩ := walk_of_locate h
  exact locate_eq_ok_iff.2 ⟨hp, hnul, leads_of_walk hw hloc h⟩

/-- Whoever opens something in a directory has found the directory. -/
theorem leads_of_locate_join {w : Walk} {name : String} (hname : Path.IsName name)
    (h : fs.locate workDir (Path.join p name) w = .ok loc) :
    ∃ k dir, k ≤ 40 ∧ Leads fs k (origin workDir p) (names p) dir ∧
      fs.get? dir = some .directory := by
  obtain ⟨-, -, h⟩ := walk_of_locate h
  rw [origin_join workDir hname, steps_join hname] at h
  obtain ⟨k, dir, hk, hleads, h⟩ := walk_append (List.cons_ne_nil name []) h
  exact ⟨k, dir, hk, hleads, get?_of_walk h⟩

/-- Something in a directory is found there if links are not followed at the end. -/
theorem locate_join_last {k : Nat} {dir : Location} {name : String} (hname : Path.IsName name)
    (hdir : Leads fs k (origin workDir p) (names p) dir)
    (h : fs.locate workDir (Path.join p name) { follow := false } = .ok loc) :
    loc = dir ++ [name] ∧ (fs.get? loc).isSome = true := by
  obtain ⟨-, -, h⟩ := walk_of_locate h
  rw [origin_join workDir hname, steps_join hname] at h
  obtain ⟨_, mid, _, hmid, h⟩ := walk_append (List.cons_ne_nil name []) h
  obtain rfl := hdir.unique hmid
  exact (walk_last hname h).2

/-- This is so, too, if the directory was found when there was more. -/
theorem Within.locate_join_last (hw : Within fs fs') {k : Nat} {dir : Location} {name : String}
    (hname : Path.IsName name) (hdir : Leads fs' k (origin workDir p) (names p) dir)
    (h : fs.locate workDir (Path.join p name) { follow := false } = .ok loc) :
    loc = dir ++ [name] := by
  obtain ⟨_, mid, _, hmid, -⟩ := leads_of_locate_join hname h
  obtain rfl := hdir.unique (hmid.mono hw)
  exact (FileSystem.locate_join_last hname hmid h).1

/-- What is to be written is a file already, or there is none yet. -/
theorem Rooted.writable (hr : fs.Rooted) {e : Option Entry}
    (h : fs.writable workDir p = .ok (loc, e)) :
    fs.locate workDir p { follow := true, create := true } = .ok loc ∧ fs.get? loc = e ∧
      (fs.FileAt loc ∨ fs.Fresh loc) := by
  rw [FileSystem.writable] at h
  obtain ⟨found, hlocate, h⟩ := bind_eq_ok_iff.1 h
  rcases hr.locate_end hlocate with ⟨e', he', hlink⟩ | ⟨-, hfresh⟩
  · rw [he'] at h
    cases e' with
    | directory => cases h
    | file c x =>
      cases h
      exact ⟨hlocate, he', .inl ⟨c, x, he'⟩⟩
    | link target => exact absurd rfl (hlink rfl target)
  · rw [hfresh.get?_eq_none] at h
    cases h
    exact ⟨hlocate, hfresh.get?_eq_none, .inr hfresh⟩

/-- Opening a file adds it if it is missing, and then the path leads to it. -/
theorem Rooted.openOrCreate (hr : fs.Rooted) (h : fs.openOrCreate workDir p = .ok (fs', loc)) :
    fs'.Rooted ∧ Grown (fun l e => l = loc ∧ e = .file .empty false) fs fs' ∧ fs'.FileAt loc ∧
      fs'.locate workDir p = .ok loc := by
  rw [FileSystem.openOrCreate] at h
  obtain ⟨⟨found, e⟩, hwritable, h⟩ := bind_eq_ok_iff.1 h
  obtain ⟨hlocate, he, hfile | hfresh⟩ := hr.writable hwritable
  · obtain ⟨c, x, hfile'⟩ := id hfile
    rw [← he, hfile'] at h
    cases h
    exact ⟨hr, .refl _, hfile, locate_of_locate (.refl _) hfile.solid hlocate⟩
  · rw [← he, hfresh.get?_eq_none] at h
    cases h
    have hgrown := hfresh.grown (.file .empty false)
    have hfile : (fs.set loc (.file .empty false)).FileAt loc :=
      ⟨.empty, false, by rw [get?_set fs hfresh.ne_nil, if_pos rfl]⟩
    exact ⟨hfresh.rooted hr _, hgrown, hfile, locate_of_locate hgrown.kept hfile.solid hlocate⟩

/-- Making a directory adds it. -/
theorem Rooted.makeDirectory (hr : fs.Rooted) (h : fs.makeDirectory workDir p = .ok fs') :
    fs'.Rooted ∧ Grown (fun _ e => e = .directory) fs fs' := by
  rw [FileSystem.makeDirectory] at h
  obtain ⟨loc, hlocate, h⟩ := bind_eq_ok_iff.1 h
  rcases hr.locate_end hlocate with ⟨e, he, -⟩ | ⟨-, hfresh⟩
  · rw [he] at h
    cases h
  · rw [hfresh.get?_eq_none] at h
    cases h
    exact ⟨hfresh.rooted hr _, (hfresh.grown .directory).imp fun _ _ => And.right⟩

theorem Rooted.makeDirectoriesTo (hr : fs.Rooted) {depth : Nat}
    (h : makeDirectoriesTo depth fs workDir p = .ok fs') :
    fs'.Rooted ∧ Grown (fun _ e => e = .directory) fs fs' := by
  fun_induction FileSystem.makeDirectoriesTo depth fs workDir p generalizing fs' with
  | case1 _ p made hmade =>
    cases h
    exact hr.makeDirectory hmade
  | case2 => cases h
  | case3 p _ n above _ _ ih =>
    obtain ⟨made, habove, h⟩ := bind_eq_ok_iff.1 h
    obtain ⟨hr', hgrown⟩ := ih habove
    split at h
    · next made' hmade =>
      cases h
      obtain ⟨hr'', hgrown'⟩ := hr'.makeDirectory hmade
      exact ⟨hr'', hgrown.trans hgrown'⟩
    · split at h
      · cases h
        exact ⟨hr', hgrown⟩
      · cases h
  | case4 => cases h
  | case5 =>
    cases h
    exact ⟨hr, .refl fs⟩
  | case6 => cases h

/-- Making a directory and those above it adds directories. -/
theorem Rooted.makeDirectories (hr : fs.Rooted) (h : fs.makeDirectories workDir p = .ok fs') :
    fs'.Rooted ∧ Grown (fun _ e => e = .directory) fs fs' := by
  rw [FileSystem.makeDirectories] at h
  split at h
  · cases h
    exact ⟨hr, .refl fs⟩
  · exact hr.makeDirectoriesTo h

/-- Where the directory is there already, nothing changes. -/
theorem makeDirectories_of_there
    (hplain : String.ofList (Path.trimReversed p.toList.reverse).reverse = p)
    (hlocate : ∀ w, fs.locate workDir p w = .ok loc) (hloc : fs.get? loc = some .directory) :
    fs.makeDirectories workDir p = .ok fs := by
  have hthere : fs.makeDirectory workDir p = .error .alreadyExists := by
    rw [makeDirectory, hplain, hlocate]
    simp [bind, Except.bind, hloc]
  have hdirectory : fs.isDirectory workDir p = true := by
    rw [isDirectory, entry?, hlocate]
    dsimp only
    rw [hloc]
    rfl
  rw [makeDirectories, makeDirectoriesTo.eq_def, hthere]
  dsimp only
  rw [if_pos hdirectory, ite_self]

/-- Removing a directory takes what is at its place, and all below. -/
theorem removeTree_eq_ok (h : fs.removeTree workDir p = .ok fs') :
    ∃ loc, fs.locate workDir p { follow := false } = .ok loc ∧ fs' = fs.eraseTree loc := by
  rw [removeTree] at h
  obtain ⟨loc, hlocate, h⟩ := bind_eq_ok_iff.1 h
  refine ⟨loc, hlocate, ?_⟩
  split at h <;> cases h
  rfl

/-- Removing a file takes what is at its place, and all below. -/
theorem removeFile_eq_ok (h : fs.removeFile workDir p = .ok fs') :
    ∃ loc, fs.locate workDir p { follow := false } = .ok loc ∧ fs' = fs.eraseTree loc := by
  rw [removeFile] at h
  obtain ⟨loc, hlocate, h⟩ := bind_eq_ok_iff.1 h
  refine ⟨loc, hlocate, ?_⟩
  split at h <;> cases h
  rfl

/-- What has a name in a directory is found there. -/
theorem Sound.locate_last (hs : fs.Sound) {name : String} (hloc : fs.get? loc = some .directory)
    (hthere : (fs.get? (loc ++ [name])).isSome = true) :
    fs.locate workDir (Path.join (render loc) name) { follow := false } = .ok (loc ++ [name]) := by
  obtain ⟨e, he⟩ := Option.isSome_iff_exists.1 hthere
  have hname := hs.isName he
  have hdown : fs.get? ([] ++ loc) = some .directory := hloc
  rw [locate_join_walk hname (hs.noNul he) (noNul_render hs hloc),
    names_render (hs.isName_of_mem hloc), origin, if_pos (Path.isAbsolute_render loc),
    hs.walk_down hdown, List.nil_append, walk, hloc]
  dsimp only
  rw [if_neg hname.not_here, if_neg hname.not_up, he]
  cases e with
  | link target => rfl
  | _ => rw [walk]

/-- A name in a directory leads to the directory that has it. -/
theorem Sound.isDirectory_join (hs : fs.Sound) {name : String}
    (hdir : fs.locate workDir p = .ok loc) (h : fs.get? (loc ++ [name]) = some .directory) :
    fs.isDirectory workDir (Path.join p name) = true :=
  isDirectory_iff.2 ⟨loc ++ [name], locate_join_of_get? (hs.isName h) (hs.noNul h) hdir
    (hs.parent h) h nofun, h⟩

/-- A name in a directory that stands for a file or for nothing leads to no directory. -/
theorem isDirectory_join_eq_false {name : String} (hname : Path.IsName name)
    (hnul : '\x00' ∉ name.toList) (hdir : fs.locate workDir p = .ok loc)
    (hloc : fs.get? loc = some .directory)
    (h : fs.get? (loc ++ [name]) = none ∨ fs.FileAt (loc ++ [name])) :
    fs.isDirectory workDir (Path.join p name) = false := by
  rw [← Bool.not_eq_true, isDirectory_iff]
  rintro ⟨found, hfound, hdirectory⟩
  rcases get?_of_locate_join hname hnul hdir hloc hfound with ⟨target, he⟩ | ⟨rfl, e, he⟩
  · rcases h with hnone | ⟨c, x, hfile⟩
    · cases hnone.symm.trans he
    · cases hfile.symm.trans he
  · rcases h with hnone | ⟨c, x, hfile⟩
    · cases hnone.symm.trans hdirectory
    · cases hfile.symm.trans hdirectory

theorem removeTree_of_locate {e : Entry}
    (hlocate : fs.locate workDir p { follow := false } = .ok loc) (he : fs.get? loc = some e)
    (hfile : ¬ fs.FileAt loc) : fs.removeTree workDir p = .ok (fs.eraseTree loc) := by
  rw [removeTree, hlocate]
  dsimp only [bind, Except.bind]
  rw [he]
  cases e with
  | file c x => exact absurd ⟨c, x, he⟩ hfile
  | _ => rfl

theorem removeFile_of_locate {e : Entry}
    (hlocate : fs.locate workDir p { follow := false } = .ok loc) (he : fs.get? loc = some e)
    (hdirectory : e ≠ .directory) : fs.removeFile workDir p = .ok (fs.eraseTree loc) := by
  rw [removeFile, hlocate]
  dsimp only [bind, Except.bind]
  rw [he]
  cases e with
  | directory => exact absurd rfl hdirectory
  | _ => rfl

end Operations

end LintHooks.FileSystem
