import LintHooks.FileSystem.Basic
set_option autoImplicit false

/-!
# Paths: joining and containing

An absolute path stands for itself, and from an absolute directory every path leads to an absolute
one.  The absolute paths without dots and doubled separators are the texts of locations, and one of
them is inside another if it has the other's names and more.

What joining does is known from `join_of_isAbsolute` and `isAbsolute_join`.  Cutting a text at its
separators is described by `splitOn_spec`, and for the text of a location that gives back its names
(`segments_render`, `components_render`), as each of them `IsName`.  A path is `Normal` if it is
such a text.  For these paths containing, which is about components, comes to one text beginning
with the other one (`Inside.isPrefix`).
-/

namespace LintHooks.Path

/-! ## Absolute paths -/

theorem isAbsolute_iff {p : String} : isAbsolute p = true ↔ ∃ s, p.toList = '/' :: s := by
  rw [isAbsolute, beq_iff_eq, List.head?_eq_some_iff]

theorem join_of_isAbsolute {q : String} (h : isAbsolute q = true) (p : String) : join p q = q := by
  rw [join, if_pos h]

theorem isAbsolute_append {p : String} (h : isAbsolute p = true) (q : String) :
    isAbsolute (p ++ q) = true := by
  obtain ⟨s, hs⟩ := isAbsolute_iff.1 h
  exact isAbsolute_iff.2 ⟨s ++ q.toList, by rw [String.toList_append, hs, List.cons_append]⟩

theorem isAbsolute_join {p : String} (h : isAbsolute p = true) (q : String) :
    isAbsolute (join p q) = true := by
  rw [join]
  split
  · assumption
  split
  · exact isAbsolute_append h q
  · exact isAbsolute_append (isAbsolute_append h "/") q

/-! ## Segments -/

/-- The pieces between separators have all characters of a text but the separators.  The induction
goes from one separator to the next. -/
theorem splitOn_spec (sep : Char) (s : List Char) :
    (∀ l ∈ s.splitOn sep, sep ∉ l) ∧ ∀ c, c ≠ sep → (c ∈ s ↔ ∃ l ∈ s.splitOn sep, c ∈ l) := by
  by_cases hs : sep ∈ s
  · obtain ⟨piece, t, hs, hpiece⟩ := List.eq_append_cons_of_mem hs
    obtain ⟨hpieces, hmem⟩ := splitOn_spec sep t
    rw [hs, List.splitOn_append_cons_self_of_not_mem hpiece]
    refine ⟨List.forall_mem_cons.2 ⟨hpiece, hpieces⟩, fun c hc => ?_⟩
    rw [List.mem_append, List.mem_cons, hmem c hc]
    simp [hc]
  · rw [List.splitOn_eq_singleton hs]
    exact ⟨by simpa using hs, by simp⟩
termination_by s.length
decreasing_by
  rw [hs, List.length_append, List.length_cons]
  omega

theorem noSeparator_of_mem_segments {p n : String} (h : n ∈ segments p) : '/' ∉ n.toList := by
  obtain ⟨l, hl, rfl⟩ := List.mem_map.1 h
  rw [String.toList_ofList]
  exact (splitOn_spec '/' p.toList).1 l hl

theorem mem_segments {p : String} {c : Char} (hc : c ≠ '/') :
    c ∈ p.toList ↔ ∃ n ∈ segments p, c ∈ n.toList := by
  rw [(splitOn_spec '/' p.toList).2 c hc, segments]
  constructor
  · rintro ⟨l, hl, hcl⟩
    exact ⟨String.ofList l, List.mem_map_of_mem hl, by rwa [String.toList_ofList]⟩
  · rintro ⟨n, hn, hcn⟩
    obtain ⟨l, hl, rfl⟩ := List.mem_map.1 hn
    exact ⟨l, hl, by rwa [String.toList_ofList] at hcn⟩

/-! ## Normal paths -/

/-- A name that something in a directory can have. -/
structure IsName (s : String) : Prop where
  nonempty : s ≠ ""
  not_here : s ≠ "."
  not_up : s ≠ ".."
  noSeparator : '/' ∉ s.toList

theorem isName_iff {s : String} : IsName s ↔ s ≠ "" ∧ s ≠ "." ∧ s ≠ ".." ∧ '/' ∉ s.toList :=
  ⟨fun ⟨h₁, h₂, h₃, h₄⟩ => ⟨h₁, h₂, h₃, h₄⟩, fun ⟨h₁, h₂, h₃, h₄⟩ => ⟨h₁, h₂, h₃, h₄⟩⟩

/-- A name is walked as one. -/
theorem IsName.single {s : String} (h : IsName s) : s ≠ "" ∧ '/' ∉ s.toList :=
  ⟨h.nonempty, h.noSeparator⟩

instance : DecidablePred IsName := fun _ => decidable_of_iff _ isName_iff.symm

/-- An absolute path without dots, doubled separators and a separator at the end. -/
def Normal (p : String) : Prop := ∃ names, (∀ n ∈ names, IsName n) ∧ p = FileSystem.render names

/-- The components of a directory are the first ones of a path that has more. -/
def Inside (dir p : String) : Prop :=
  components dir <+: components p ∧ components dir ≠ components p

instance (dir p : String) : Decidable (Inside dir p) := inferInstanceAs (Decidable (_ ∧ _))

theorem toList_render (names : List String) :
    (FileSystem.render names).toList = '/' :: ['/'].intercalate (names.map String.toList) := by
  rw [FileSystem.render, String.toList_append, String.toList_intercalate]
  rfl

theorem segments_render {names : List String} (h : ∀ n ∈ names, IsName n) :
    segments (FileSystem.render names) = "" :: if names = [] then [""] else names := by
  have hroot : '/' ∉ ([] : List Char) := List.not_mem_nil
  rw [segments, toList_render, ← List.nil_append ('/' :: _),
    List.splitOn_append_cons_self_of_not_mem hroot, List.map_cons]
  by_cases hnames : names = []
  · subst hnames
    rfl
  · rw [if_neg hnames, List.splitOn_intercalate, List.map_map]
    · exact congrArg _ (List.map_id'' (fun _ => String.ofList_toList) names)
    · intro l hl
      obtain ⟨n, hn, rfl⟩ := List.mem_map.1 hl
      exact (h n hn).noSeparator
    · rwa [Ne, List.map_eq_nil_iff]

theorem isAbsolute_render (names : List String) : isAbsolute (FileSystem.render names) = true :=
  isAbsolute_iff.2 ⟨_, toList_render names⟩

theorem IsName.ofSegment? {n : String} (h : IsName n) :
    Component.ofSegment? n = some (.name n) := by
  rw [Component.ofSegment?, if_neg (not_or.2 ⟨h.nonempty, h.not_here⟩), if_neg h.not_up]

theorem filterMap_ofSegment? {names : List String} (h : ∀ n ∈ names, IsName n) :
    names.filterMap Component.ofSegment? = names.map .name := by
  induction names with
  | nil => rfl
  | cons n names ih =>
    obtain ⟨hn, hnames⟩ := List.forall_mem_cons.1 h
    rw [List.filterMap_cons_some hn.ofSegment?, ih hnames, List.map_cons]

theorem components_render {names : List String} (h : ∀ n ∈ names, IsName n) :
    components (FileSystem.render names) = .root :: names.map .name := by
  rw [components, isAbsolute_render, segments_render h, ← filterMap_ofSegment? h]
  by_cases hnil : names = []
  · subst hnil
    rfl
  · rw [if_neg hnil]
    rfl

/-- The text of a directory begins the texts of what is in it. -/
theorem isPrefix_render {a b : List String} (h : a <+: b) :
    (FileSystem.render a).toList <+: (FileSystem.render b).toList := by
  obtain ⟨c, rfl⟩ := h
  by_cases ha : a = []
  · subst ha
    rw [toList_render, toList_render]
    exact List.cons_prefix_cons.2 ⟨rfl, List.nil_prefix⟩
  by_cases hc : c = []
  · subst hc
    exact ⟨[], by rw [List.append_nil, List.append_nil]⟩
  · have hrender : FileSystem.render (a ++ c) =
        FileSystem.render a ++ ("/" ++ String.intercalate "/" c) := by
      rw [FileSystem.render, FileSystem.render, String.intercalate_append_of_ne_nil ha hc]
      simp only [String.append_assoc]
    rw [hrender, String.toList_append]
    exact List.prefix_append ..

theorem Inside.isPrefix {dir p : String} (hdir : Normal dir) (hp : Normal p) (h : Inside dir p) :
    dir.toList <+: p.toList := by
  obtain ⟨a, ha, rfl⟩ := hdir
  obtain ⟨b, hb, rfl⟩ := hp
  have hcomponents := h.1
  rw [components_render ha, components_render hb, List.cons_prefix_cons] at hcomponents
  obtain ⟨-, t, ht⟩ := hcomponents
  obtain ⟨a', c, rfl, ha', -⟩ := List.append_eq_map_iff.1 ht
  obtain rfl : a' = a := (List.map_inj_right fun _ _ => Component.name.inj).1 ha'
  exact isPrefix_render (List.prefix_append ..)

end LintHooks.Path
