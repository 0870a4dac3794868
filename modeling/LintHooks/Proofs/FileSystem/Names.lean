import LintHooks.Proofs.FileSystem.Walk
set_option autoImplicit false

/-!
# File systems: the names in a path

A path text is walked by its names, from the root or from the working directory.  Joining paths puts
their names one after the other, and the absolute form of a path has the names of the working
directory before its own and no dots.

`locate_eq_ok_iff` turns a path into a way.  The rest is about paths that are made of others.  What
joining does to the names is `steps_join`, so that something in a directory is walked to through the
directory (`locate_join_walk`) and reached by its name from there (`locate_join_iff`).  For the
absolute form it is `names_absolute?`, and where that leads to a directory the path does, too
(`locate_of_absolute?`).  For the text of a location it is `names_render`, and from that text one
goes on as from the location (`leads_render_iff`).  The last section is about a file system in which
a file has been written (`Wrote`): a path that led to a directory does not lead to another one
(`Wrote.locate_eq`).
-/

namespace LintHooks.FileSystem

/-- The names in a path. -/
def names (p : String) : List String := (Path.segments p).filter (· ≠ "")

/-- Where a path is walked from. -/
def origin (workDir : Location) (p : String) : Location :=
  if Path.isAbsolute p then [] else workDir

/-! ## Names -/

variable {p q : String}

theorem segments_of_noSeparator (h : '/' ∉ p.toList) : Path.segments p = [p] := by
  rw [Path.segments, List.splitOn_eq_singleton h, List.map_singleton, String.ofList_toList]

theorem segments_append (p q : String) :
    Path.segments (p ++ "/" ++ q) = Path.segments p ++ Path.segments q := by
  have htext : (p ++ "/" ++ q).toList = p.toList ++ '/' :: q.toList := by simp
  rw [Path.segments, htext, List.splitOn_append_cons_self, List.map_append]
  rfl

theorem names_append (p q : String) : names (p ++ "/" ++ q) = names p ++ names q := by
  rw [names, segments_append, List.filter_append]
  rfl

theorem names_empty : names "" = [] := by decide

theorem names_single (h : p ≠ "" ∧ '/' ∉ p.toList) : names p = [p] := by
  rw [names, segments_of_noSeparator h.2, List.filter_cons_of_pos (by simpa using h.1),
    List.filter_nil]

/-- A separator at the end adds no name. -/
theorem names_append_separator (p : String) : names (p ++ "/") = names p := by
  have hnames := names_append p ""
  rwa [String.append_empty, names_empty, List.append_nil] at hnames

theorem names_join (h : Path.isAbsolute q = false) (p : String) :
    names (Path.join p q) = names p ++ names q := by
  rw [Path.join, if_neg (by rw [h]; exact Bool.false_ne_true)]
  by_cases hp : p = ""
  · rw [if_pos (.inl hp), hp, String.empty_append, names_empty, List.nil_append]
  by_cases hlast : p.toList.getLast? = some '/'
  · rw [if_pos (.inr hlast)]
    obtain ⟨s, hs⟩ := List.getLast?_eq_some_iff.1 hlast
    obtain rfl : p = String.ofList s ++ "/" :=
      String.toList_inj.1 (by rw [hs, String.toList_append, String.toList_ofList]; rfl)
    rw [names_append, names_append_separator]
  · rw [if_neg (not_or.2 ⟨hp, hlast⟩), names_append]

theorem steps_eq (p : String) :
    steps p = names p ++ if p.toList.getLast? = some '/' then ["."] else [] := by
  rw [steps]
  split
  · rfl
  · exact (List.append_nil _).symm

/-- What is not absolute is put after the directory, with a separator where one is needed. -/
theorem join_eq (h : Path.isAbsolute q = false) (p : String) :
    ∃ sep, Path.join p q = p ++ sep ++ q ∧ (p = "" → sep = "") := by
  rw [Path.join, if_neg (by rw [h]; exact Bool.false_ne_true)]
  split
  · exact ⟨"", by rw [String.append_empty], fun _ => rfl⟩
  · next hp => exact ⟨"/", rfl, fun hempty => absurd (.inl hempty) hp⟩

theorem isAbsolute_of_noSeparator (h : '/' ∉ q.toList) : Path.isAbsolute q = false := by
  rw [← Bool.not_eq_true, Path.isAbsolute_iff]
  rintro ⟨s, hs⟩
  exact h (hs ▸ List.mem_cons_self)

/-- The walk to something in a directory. -/
theorem steps_join (h : Path.IsName q) (p : String) : steps (Path.join p q) = names p ++ [q] := by
  have hrelative := isAbsolute_of_noSeparator h.noSeparator
  have hlast : (Path.join p q).toList.getLast? ≠ some '/' := by
    obtain ⟨sep, hjoin, -⟩ := join_eq hrelative p
    have hq : q.toList ≠ [] := fun hnil => h.nonempty (String.toList_eq_nil_iff.1 hnil)
    rw [hjoin, String.toList_append, List.getLast?_append, List.getLast?_eq_some_getLast hq,
      Option.some_or]
    intro hlast
    exact h.noSeparator (Option.some.inj hlast ▸ List.getLast_mem hq)
  rw [steps_eq, if_neg hlast, names_join hrelative, names_single h.single, List.append_nil]

theorem isAbsolute_append_of_ne (hp : p ≠ "") (q : String) :
    Path.isAbsolute (p ++ q) = Path.isAbsolute p := by
  obtain ⟨c, s, hs⟩ := List.exists_cons_of_ne_nil fun hnil => hp (String.toList_eq_nil_iff.1 hnil)
  rw [Path.isAbsolute, Path.isAbsolute, String.toList_append, hs]
  rfl

/-- The last component of something in a directory is its name. -/
theorem getLast?_components_join (h : Path.IsName q) (p : String) :
    (Path.components (Path.join p q)).getLast? = some (.name q) := by
  have hrelative := isAbsolute_of_noSeparator h.noSeparator
  obtain ⟨front, hsegments⟩ : ∃ front, Path.segments (Path.join p q) = front ++ [q] := by
    have hsingle := segments_of_noSeparator h.noSeparator
    rw [Path.join, if_neg (by rw [hrelative]; exact Bool.false_ne_true)]
    by_cases hp : p = ""
    · rw [if_pos (.inl hp), hp, String.empty_append, hsingle]
      exact ⟨[], rfl⟩
    by_cases hlast : p.toList.getLast? = some '/'
    · obtain ⟨s, hs⟩ := List.getLast?_eq_some_iff.1 hlast
      obtain rfl : p = String.ofList s ++ "/" :=
        String.toList_inj.1 (by rw [hs, String.toList_append, String.toList_ofList]; rfl)
      rw [if_pos (.inr hlast), segments_append, hsingle]
      exact ⟨_, rfl⟩
    · rw [if_neg (not_or.2 ⟨hp, hlast⟩), segments_append, hsingle]
      exact ⟨_, rfl⟩
  have hrest : (Path.segments (Path.join p q)).filterMap Path.Component.ofSegment? =
      front.filterMap Path.Component.ofSegment? ++ [.name q] := by
    rw [hsegments, List.filterMap_append, List.filterMap_cons_some h.ofSegment?,
      List.filterMap_nil]
  rw [Path.components, hrest]
  split
  · rw [← List.cons_append, List.getLast?_concat]
  split
  · rw [← List.cons_append, List.getLast?_concat]
  · rw [List.getLast?_concat]

/-- Things in one directory with the same path on paper have the same name. -/
theorem eq_of_same_join {q' : String} (h : Path.IsName q) (h' : Path.IsName q')
    (hsame : Path.same (Path.join p q) (Path.join p q') = true) : q = q' := by
  have hcomponents := congrArg List.getLast? (beq_iff_eq.1 hsame)
  rw [getLast?_components_join h, getLast?_components_join h'] at hcomponents
  exact Path.Component.name.inj (Option.some.inj hcomponents)

/-- What is in a directory is walked to from where the directory is. -/
theorem origin_join (workDir : Location) (h : Path.IsName q) (p : String) :
    origin workDir (Path.join p q) = origin workDir p := by
  have hrelative := isAbsolute_of_noSeparator h.noSeparator
  obtain ⟨sep, hjoin, hsep⟩ := join_eq hrelative p
  rw [origin, origin, hjoin]
  by_cases hp : p = ""
  · rw [hsep hp, hp, String.append_empty, String.empty_append, hrelative]
    rfl
  · rw [String.append_assoc, isAbsolute_append_of_ne hp]

/-! ## Absolute forms -/

theorem names_render {loc : Location} (h : ∀ n ∈ loc, Path.IsName n) :
    names (render loc) = loc := by
  rw [names, Path.segments_render h, List.filter_cons_of_neg (by simp)]
  split
  · next hnil => rw [hnil]; decide
  · refine List.filter_eq_self.2 fun n hn => ?_
    simpa using (h n hn).nonempty

/-- Joining names to a directory one after the other puts them after its own. -/
theorem names_foldl_join {xs : List String} (h : ∀ x ∈ xs, x ≠ "" ∧ '/' ∉ x.toList)
    (start : String) : names (xs.foldl Path.join start) = names start ++ xs := by
  induction xs generalizing start with
  | nil => exact (List.append_nil _).symm
  | cons x xs ih =>
    obtain ⟨hx, hxs⟩ := List.forall_mem_cons.1 h
    rw [List.foldl_cons, ih hxs, names_join (isAbsolute_of_noSeparator hx.2), names_single hx,
      List.append_assoc, List.singleton_append]

theorem isAbsolute_foldl_join {start : String} (h : Path.isAbsolute start = true)
    (xs : List String) : Path.isAbsolute (xs.foldl Path.join start) = true := by
  induction xs generalizing start with
  | nil => exact h
  | cons x xs ih => exact ih (Path.isAbsolute_join h x)

/-- The absolute form has the names of the working directory if the path is relative, and then those
of the path without the dots. -/
theorem names_absolute? {workDir : Location} (hwork : ∀ n ∈ workDir, Path.IsName n) {a : String}
    (h : Path.absolute? (render workDir) p = some a) :
    names a = origin workDir p ++ (names p).filter (· ≠ ".") ∧ Path.isAbsolute a = true := by
  have hkept : (Path.segments p).filter (fun s => s != "" && s != ".") =
      (names p).filter (· ≠ ".") := by
    rw [names, List.filter_filter]
    refine List.filter_congr fun x _ => ?_
    simp only [bne, Bool.and_comm, decide_not]
    rfl
  have hsingle : ∀ x ∈ (names p).filter (· ≠ "."), x ≠ "" ∧ '/' ∉ x.toList := by
    intro x hx
    have hsegment := List.mem_filter.1 (List.mem_filter.1 hx).1
    exact ⟨by simpa using hsegment.2, Path.noSeparator_of_mem_segments hsegment.1⟩
  -- wherever the path starts, its own names come after the ones of the start
  have hpath : ∀ start, names start = origin workDir p → Path.isAbsolute start = true →
      (if p.toList.getLast? = some '/' then
          Path.join (((names p).filter (· ≠ ".")).foldl Path.join start) ""
        else ((names p).filter (· ≠ ".")).foldl Path.join start) = a →
      names a = origin workDir p ++ (names p).filter (· ≠ ".") ∧ Path.isAbsolute a = true := by
    rintro start hstart habsolute rfl
    have hnames := names_foldl_join hsingle start
    have hfold := isAbsolute_foldl_join habsolute ((names p).filter (· ≠ "."))
    split
    · rw [names_join (by decide), hnames, names_empty, List.append_nil, hstart]
      exact ⟨rfl, Path.isAbsolute_join hfold ""⟩
    · exact ⟨by rw [hnames, hstart], hfold⟩
  rw [Path.absolute?] at h
  split at h
  · cases h
  dsimp only at h
  rw [hkept] at h
  by_cases hp : Path.isAbsolute p = true
  · rw [hp, Bool.not_true, if_neg Bool.false_ne_true] at h
    have hroot : names "/" = origin workDir p := by
      rw [origin, if_pos hp]
      decide
    have hroots : names "//" = origin workDir p := by
      rw [origin, if_pos hp]
      decide
    refine hpath _ ?_ ?_ (Option.some.inj h)
    · split
      · exact hroot
      · exact hroots
      · exact hroot
    · split <;> decide
  · rw [Bool.not_eq_true] at hp
    rw [hp, Bool.not_false, if_pos rfl] at h
    have hstart : names (render workDir) = origin workDir p := by
      rw [names_render hwork, origin, hp]
      rfl
    exact hpath _ hstart (Path.isAbsolute_render workDir) (Option.some.inj h)

/-- What an absolute form is made of is in the path, up to separators and dots. -/
theorem not_mem_of_absolute? {workDir : Location} (hwork : ∀ n ∈ workDir, Path.IsName n)
    {a : String} (h : Path.absolute? (render workDir) p = some a) {c : Char} (hsep : c ≠ '/')
    (hdot : c ≠ '.') (hc : c ∉ a.toList) : c ∉ p.toList := by
  intro hp
  obtain ⟨n, hn, hcn⟩ := (Path.mem_segments hsep).1 hp
  have hempty : n ≠ "" := by
    rintro rfl
    cases hcn
  have hhere : n ≠ "." := by
    rintro rfl
    exact hdot (List.mem_singleton.1 hcn)
  have hnames : n ∈ names a := by
    rw [(names_absolute? hwork h).1]
    exact List.mem_append_right _ (List.mem_filter.2
      ⟨List.mem_filter.2 ⟨hn, by simpa using hempty⟩, by simpa using hhere⟩)
  exact hc ((Path.mem_segments hsep).2 ⟨n, (List.mem_filter.1 hnames).1, hcn⟩)

/-! ## Looking at paths -/

section Lookup

variable {fs fs' : FileSystem} {workDir loc : Location}

theorem mem_join {c : Char} (hc : c ≠ '/') (h : Path.isAbsolute q = false) :
    c ∈ (Path.join p q).toList ↔ c ∈ p.toList ∨ c ∈ q.toList := by
  rw [Path.join, if_neg (by rw [h]; exact Bool.false_ne_true)]
  split <;> simp [hc]

theorem locate_eq_ok_iff : fs.locate workDir p = .ok loc ↔ p ≠ "" ∧ '\x00' ∉ p.toList ∧
    ∃ k, k ≤ 40 ∧ Leads fs k (origin workDir p) (steps p) loc := by
  rw [locate, ← walk_eq_ok_iff]
  by_cases hp : p = ""
  · simp [hp]
  by_cases hnul : '\x00' ∈ p.toList
  · simp [hp, hnul]
  · simp [hp, hnul, origin]

/-- The names of a directory lead to it. -/
theorem locate_directory_iff (hloc : fs.get? loc = some .directory) :
    fs.locate workDir p = .ok loc ↔ p ≠ "" ∧ '\x00' ∉ p.toList ∧
      ∃ k, k ≤ 40 ∧ Leads fs k (origin workDir p) (names p) loc := by
  have hsteps : ∀ k, Leads fs k (origin workDir p) (steps p) loc ↔
      Leads fs k (origin workDir p) (names p) loc := by
    intro k
    rw [steps_eq]
    split
    · rw [Leads.snoc_here_iff]
      exact and_iff_left hloc
    · rw [List.append_nil]
  simp only [locate_eq_ok_iff, hsteps]

/-- Something in a directory is walked to through the directory, however the walk ends. -/
theorem locate_join_walk (h : Path.IsName q) (hnul : '\x00' ∉ q.toList) (hp : '\x00' ∉ p.toList)
    (w : Walk) : fs.locate workDir (Path.join p q) w =
      fs.walk w 40 (origin workDir p) (names p ++ [q]) := by
  have hrelative := isAbsolute_of_noSeparator h.noSeparator
  have hempty : Path.join p q ≠ "" := by
    intro hjoin
    have hnames := names_join hrelative p
    rw [hjoin, names_empty, names_single h.single] at hnames
    exact List.append_ne_nil_of_right_ne_nil _ (List.cons_ne_nil q []) hnames.symm
  have hclear : ¬ (Path.join p q).toList.contains '\x00' = true := by
    rw [List.contains_iff_mem, mem_join (by decide) hrelative]
    exact not_or.2 ⟨hp, hnul⟩
  rw [← origin_join workDir h, ← steps_join h, locate, if_neg hempty, if_neg hclear, origin]

/-- Something in a directory is reached by its name after those of the directory. -/
theorem locate_join_iff (h : Path.IsName q) (hnul : '\x00' ∉ q.toList) :
    fs.locate workDir (Path.join p q) = .ok loc ↔ '\x00' ∉ p.toList ∧
      ∃ k, k ≤ 40 ∧ Leads fs k (origin workDir p) (names p ++ [q]) loc := by
  have hrelative := isAbsolute_of_noSeparator h.noSeparator
  have hempty : Path.join p q ≠ "" := by
    intro hjoin
    have hnames := names_join hrelative p
    rw [hjoin, names_empty, names_single h.single] at hnames
    exact List.append_ne_nil_of_right_ne_nil _ (List.cons_ne_nil q []) hnames.symm
  rw [locate_eq_ok_iff, origin_join workDir h, steps_join h, mem_join (by decide) hrelative,
    or_iff_left hnul]
  exact and_iff_right hempty

/-- What is in a directory and is no link is where the directory and its name say. -/
theorem locate_join_of_get? (h : Path.IsName q) (hnul : '\x00' ∉ q.toList)
    (hlocate : fs.locate workDir p = .ok loc) (hloc : fs.get? loc = some .directory) {e : Entry}
    (he : fs.get? (loc ++ [q]) = some e) (hlink : ∀ target, e ≠ .link target) :
    fs.locate workDir (Path.join p q) = .ok (loc ++ [q]) := by
  obtain ⟨-, hp, k, hk, hleads⟩ := (locate_directory_iff hloc).1 hlocate
  exact (locate_join_iff h hnul).2
    ⟨hp, k, hk, hleads.append (.step hloc h.not_here h.not_up he hlink .nil)⟩

/-- What is in the working directory and is no link is reached by its name. -/
theorem locate_name (h : Path.IsName q) (hnul : '\x00' ∉ q.toList)
    (hwork : fs.get? workDir = some .directory) {e : Entry}
    (he : fs.get? (workDir ++ [q]) = some e) (hlink : ∀ target, e ≠ .link target) :
    fs.locate workDir q = .ok (workDir ++ [q]) := by
  have hrelative := isAbsolute_of_noSeparator h.noSeparator
  have hjoin : Path.join "" q = q := by
    rw [Path.join, if_neg (by rw [hrelative]; exact Bool.false_ne_true), if_pos (.inl rfl),
      String.empty_append]
  have hsteps : steps q = [q] := by
    have hnames := steps_join h ""
    rwa [hjoin, names_empty, List.nil_append] at hnames
  have horigin : origin workDir q = workDir := if_neg (by rw [hrelative]; exact Bool.false_ne_true)
  refine locate_eq_ok_iff.2 ⟨h.nonempty, hnul, 0, Nat.zero_le _, ?_⟩
  rw [horigin, hsteps]
  exact .step hwork h.not_here h.not_up he hlink .nil

/-- What a name leads to from a directory is there, unless a link is. -/
theorem get?_of_locate_join (h : Path.IsName q) (hnul : '\x00' ∉ q.toList)
    (hlocate : fs.locate workDir p = .ok loc) (hloc : fs.get? loc = some .directory)
    {loc' : Location} (hjoin : fs.locate workDir (Path.join p q) = .ok loc') :
    (∃ target, fs.get? (loc ++ [q]) = some (.link target)) ∨
      loc' = loc ++ [q] ∧ ∃ e, fs.get? (loc ++ [q]) = some e := by
  obtain ⟨-, -, _, -, hleads⟩ := (locate_directory_iff hloc).1 hlocate
  obtain ⟨-, _, -, hjoin⟩ := (locate_join_iff h hnul).1 hjoin
  obtain ⟨_, _, mid, -, hmid, hjoin⟩ := hjoin.split
  obtain rfl := hleads.unique hmid
  exact hjoin.of_single h

/-- Where the absolute form of a path leads to a directory, the path does. -/
theorem locate_of_absolute? (hs : fs.Sound) (hwork : fs.get? workDir = some .directory) {a : String}
    (h : Path.absolute? (render workDir) p = some a) (hloc : fs.get? loc = some .directory)
    (hlocate : fs.locate workDir a = .ok loc) : fs.locate workDir p = .ok loc := by
  have hworkName := hs.isName_of_mem hwork
  obtain ⟨hnames, habsolute⟩ := names_absolute? hworkName h
  have hp : p ≠ "" := by
    rintro rfl
    cases h
  obtain ⟨-, hnul, k, hk, hleads⟩ := (locate_directory_iff hloc).1 hlocate
  refine (locate_directory_iff hloc).2
    ⟨hp, not_mem_of_absolute? hworkName h (by decide) (by decide) hnul, k, hk, ?_⟩
  have horigin : fs.get? ([] ++ origin workDir p) = some .directory := by
    rw [List.nil_append, origin]
    split
    · rfl
    · exact hwork
  -- a dot at the end, as both lead to a directory, makes the dots before it irrelevant
  have hdot := Leads.snoc_here_iff.2 ⟨hleads, hloc⟩
  rw [hnames, origin, if_pos habsolute, List.append_assoc, Leads.down_iff hs horigin,
    Leads.filter_iff, List.nil_append] at hdot
  exact (Leads.snoc_here_iff.1 hdot).1

theorem noNul_render (hs : fs.Sound) (hloc : fs.get? loc = some .directory) :
    '\x00' ∉ (render loc).toList := by
  intro hnul
  obtain ⟨n, hn, hnul⟩ := (Path.mem_segments (by decide)).1 hnul
  have hnonempty : n ≠ "" := by
    rintro rfl
    cases hnul
  have hmem : n ∈ names (render loc) := List.mem_filter.2 ⟨hn, by simpa using hnonempty⟩
  rw [names_render (hs.isName_of_mem hloc)] at hmem
  exact hs.noNul_of_mem hloc n hmem hnul

/-- From the text of a directory one goes on as from the directory. -/
theorem leads_render_iff (hs : fs.Sound) (hloc : fs.get? loc = some .directory) {k : Nat}
    {ys : List String} {loc' : Location} :
    Leads fs k (origin workDir (render loc)) (names (render loc) ++ ys) loc' ↔
      Leads fs k loc ys loc' := by
  rw [names_render (hs.isName_of_mem hloc), origin, if_pos (Path.isAbsolute_render loc)]
  exact Leads.down_iff hs hloc

/-- The text of a directory leads to it. -/
theorem locate_render (hs : fs.Sound) (hloc : fs.get? loc = some .directory) :
    fs.locate workDir (render loc) = .ok loc := by
  refine (locate_directory_iff hloc).2 ⟨?_, noNul_render hs hloc, 0, Nat.zero_le _, ?_⟩
  · intro hempty
    have habsolute := Path.isAbsolute_render loc
    rw [hempty] at habsolute
    cases habsolute
  · have hleads := (@leads_render_iff _ workDir _ hs hloc 0 [] loc).2 .nil
    rwa [List.append_nil] at hleads

/-- What is in files does not matter for where a path leads. -/
theorem SameTree.locate_iff (ht : SameTree fs fs') :
    fs'.locate workDir p = .ok loc ↔ fs.locate workDir p = .ok loc := by
  simp only [locate_eq_ok_iff]
  refine and_congr_right fun _ => and_congr_right fun _ => exists_congr fun k => ?_
  exact and_congr_right fun _ => ⟨Leads.sameTree ht.symm, Leads.sameTree ht⟩

theorem locate_congr (h : ∀ l, fs'.get? l = fs.get? l) :
    fs'.locate workDir p = .ok loc ↔ fs.locate workDir p = .ok loc :=
  (SameTree.of_eq h).locate_iff

theorem isFile_iff : fs.isFile workDir p = true ↔
    ∃ loc, fs.locate workDir p = .ok loc ∧ fs.FileAt loc := by
  rw [isFile, entry?]
  cases fs.locate workDir p with
  | error _ => simp
  | ok loc =>
    dsimp only
    cases hloc : fs.get? loc with
    | none => simp [FileAt, hloc]
    | some e =>
      cases e with
      | file content executable => exact ⟨fun _ => ⟨_, rfl, _, _, hloc⟩, fun _ => rfl⟩
      | _ => simp [FileAt, hloc]

theorem isDirectory_iff : fs.isDirectory workDir p = true ↔
    ∃ loc, fs.locate workDir p = .ok loc ∧ fs.get? loc = some .directory := by
  rw [isDirectory, entry?]
  cases fs.locate workDir p with
  | error _ => simp
  | ok loc =>
    dsimp only
    cases hloc : fs.get? loc with
    | none => simp [hloc]
    | some e => cases e <;> simp [hloc, Entry.isDirectory]

theorem canonical?_eq_some_iff {a : String} : fs.canonical? workDir p = some a ↔
    ∃ loc, fs.locate workDir p = .ok loc ∧ (fs.get? loc).isSome = true ∧ render loc = a := by
  rw [canonical?]
  cases fs.locate workDir p with
  | error _ => simp
  | ok loc => by_cases hloc : (fs.get? loc).isSome = true <;> simp [hloc]

theorem mem_children {name : String} :
    name ∈ fs.children loc ↔ (fs.get? (loc ++ [name])).isSome = true := by
  rw [children, get?, if_neg (by simp), List.lookup_isSome_iff, List.mem_filterMap]
  refine exists_congr fun x => and_congr_right fun _ => ?_
  rw [beq_iff_eq]
  rcases List.eq_nil_or_concat x.1 with hx | ⟨dir, last, hx⟩
  · simp [hx]
  · simp [hx, eq_comm]

theorem list_eq_ok_iff {ns : List String} : fs.list workDir p = .ok ns ↔
    ∃ loc, fs.locate workDir p = .ok loc ∧ fs.get? loc = some .directory ∧
      fs.children loc = ns := by
  rw [list]
  cases fs.locate workDir p with
  | error _ => exact ⟨nofun, nofun⟩
  | ok loc =>
    cases hloc : fs.get? loc with
    | none => simp [bind, Except.bind, hloc]
    | some e => cases e <;> simp [bind, Except.bind, hloc]

end Lookup

/-! ## After writing a file -/

/-- A file system after a file was written: the file is there, directories may have been made for
it, and all else is as it was. -/
structure Wrote (fs fs' : FileSystem) (file : Location) : Prop where
  written : fs'.FileAt file
  rest : ∀ l, l ≠ file → fs'.get? l = fs.get? l ∨ fs.get? l = none ∧ fs'.get? l = some .directory

namespace Wrote

variable {fs fs' : FileSystem} {file l loc : Location}

/-- No link has come. -/
theorem link (hw : Wrote fs fs' file) {target : String} (hl : fs'.get? l = some (.link target)) :
    fs.get? l = some (.link target) := by
  by_cases hfile : l = file
  · obtain ⟨c, x, he⟩ := hw.written
    rw [hfile, he] at hl
    cases hl
  · rcases hw.rest l hfile with hsame | ⟨-, hdir⟩
    · rwa [hsame] at hl
    · rw [hdir] at hl
      cases hl

/-- No other file has come. -/
theorem fileAt (hw : Wrote fs fs' file) (hne : l ≠ file) (hl : fs'.FileAt l) : fs.FileAt l := by
  obtain ⟨c, x, he⟩ := hl
  rcases hw.rest l hne with hsame | ⟨-, hdir⟩
  · exact ⟨c, x, by rwa [hsame] at he⟩
  · rw [hdir] at he
    cases he

/-- What was there is there still, unless the file has taken its place. -/
theorem kept (hw : Wrote fs fs' file) {e : Entry} (hl : fs.get? l = some e) :
    fs'.get? l = some e ∨ fs'.FileAt l := by
  by_cases hfile : l = file
  · exact .inr (hfile ▸ hw.written)
  · rcases hw.rest l hfile with hsame | ⟨hnone, -⟩
    · exact .inl (by rwa [hsame])
    · rw [hnone] at hl
      cases hl

/-- A path that led to a directory leads there still, if to a directory at all. -/
theorem locate_eq (hw : Wrote fs fs' file) {workDir loc' : Location}
    (hlocate : fs.locate workDir p = .ok loc) (hloc : fs.get? loc = some .directory)
    (hlocate' : fs'.locate workDir p = .ok loc') (hloc' : fs'.get? loc' = some .directory) :
    loc' = loc := by
  obtain ⟨-, -, _, -, hleads⟩ := (locate_directory_iff hloc).1 hlocate
  obtain ⟨-, -, _, -, hleads'⟩ := (locate_directory_iff hloc').1 hlocate'
  exact hleads.agree hleads' (fun l e hl => hw.kept hl) hloc'

end Wrote

end LintHooks.FileSystem
