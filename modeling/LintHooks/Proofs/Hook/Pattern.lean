import LintHooks.Hook.Basic
import LintHooks.Proofs.Text.Basic
import Mathlib.Computability.RegularExpressions
set_option autoImplicit false

/-!
# Hooks: file patterns

Which files a hook handles is made known as a pattern, a regular expression in the usual notation.
Here the notation is read.  Most characters stand for themselves, a backslash takes the meaning from
one that has some, `(?:` and `)` enclose alternatives, and a dollar at the end of the pattern wants
the match to end where the name ends.  A file is handled exactly if its name has a match.

The main result is `found_filePattern_iff`.  On the side of the notation it has `read?_filePattern`,
which reads the pattern of a hook from the left to the right: the point, then the alternatives one
after the other (`readFrom_alternatives`), and in each of them the characters of an extension
(`readFrom_escaped`).  None of these means anything else (`extensions_readable`).  On the side of
the names it has `handles_iff`.
-/

namespace LintHooks

namespace FilePattern

/-- The characters with a meaning of their own. -/
def special : List Char := "\\.+*?()|[]^$\x7b\x7d".toList

/-- What has been read of a group: the alternatives before the current one, and the current one as
far as it goes. -/
structure Frame where
  finished : RegularExpression Char := 0
  current : RegularExpression Char := 1

namespace Frame

def add (f : Frame) (r : RegularExpression Char) : Frame := { f with current := f.current * r }

def addWord (f : Frame) (w : List Char) : Frame := w.foldl (fun f c => f.add (.char c)) f

/-- The expression of a group that ends here. -/
def close (f : Frame) : RegularExpression Char := f.finished + f.current

end Frame

/-- Reads the rest of a pattern in a group, which stands in other groups. -/
def readFrom : List Char → Frame → List Frame → Option (RegularExpression Char)
  | [], f, outer => if outer.isEmpty then some f.close else none
  | '\\' :: c :: s, f, outer => if c ∈ special then readFrom s (f.add (.char c)) outer else none
  | '(' :: '?' :: ':' :: s, f, outer => readFrom s {} (f :: outer)
  | ')' :: s, f, g :: outer => readFrom s (g.add f.close) outer
  | '|' :: s, f, outer => readFrom s { finished := f.close } outer
  | c :: s, f, outer => if c ∈ special then none else readFrom s (f.add (.char c)) outer

/-- The expression of a pattern for the end of a name. -/
def read? (pattern : List Char) : Option (RegularExpression Char) :=
  if pattern.getLast? = some '$' then readFrom pattern.dropLast {} [] else none

/-- A pattern finds itself in a name: it can be read, and what it says matches the end of the
name. -/
def Found (pattern name : String) : Prop :=
  ∃ r, read? pattern.toList = some r ∧
    ∃ stem ending, name.toList = stem ++ ending ∧ ending ∈ r.matches'

/-! ## Words and alternatives -/

theorem mem_addWord {f : Frame} {w x : List Char} :
    x ∈ (f.addWord w).current.matches' ↔ ∃ a ∈ f.current.matches', x = a ++ w := by
  induction w generalizing f with
  | nil => simp [Frame.addWord]
  | cons c w ih =>
    have hstep : f.addWord (c :: w) = (f.add (.char c)).addWord w := rfl
    rw [hstep, ih]
    constructor
    · rintro ⟨b, hb, rfl⟩
      obtain ⟨a, ha, d, hd, rfl⟩ := Language.mem_mul.1 hb
      obtain rfl : d = [c] := hd
      exact ⟨a, ha, by simp⟩
    · rintro ⟨a, ha, rfl⟩
      exact ⟨a ++ [c], Language.mem_mul.2 ⟨a, ha, [c], rfl, rfl⟩, by simp⟩

theorem finished_addWord (f : Frame) (w : List Char) : (f.addWord w).finished = f.finished := by
  induction w generalizing f with
  | nil => rfl
  | cons c w ih => exact ih (f.add (.char c))

theorem ne_of_special {c d : Char} (hc : c ∉ special) (hd : d ∈ special) : c ≠ d := by
  intro h
  exact hc (h ▸ hd)

theorem readFrom_plain {c : Char} (hc : c ∉ special) (s : List Char) (f : Frame)
    (outer : List Frame) : readFrom (c :: s) f outer = readFrom s (f.add (.char c)) outer := by
  have hback := ne_of_special hc (d := '\\') (by decide)
  have hopen := ne_of_special hc (d := '(') (by decide)
  have hshut := ne_of_special hc (d := ')') (by decide)
  have hbar := ne_of_special hc (d := '|') (by decide)
  rw [readFrom, if_neg hc]
  · intro d t h
    exact absurd h hback
  · intro t h
    exact absurd h hopen
  · intro h
    exact absurd h hbar
  · intro g t _ h
    exact absurd h hshut

/-- An extension is read as the word that it is, with its plus signs escaped. -/
theorem readFrom_escaped {w : List Char} (hw : ∀ c ∈ w, c = '+' ∨ c ∉ special) (s : List Char)
    (f : Frame) (outer : List Frame) :
    readFrom ((Hook.escaped (String.ofList w)).toList ++ s) f outer =
      readFrom s (f.addWord w) outer := by
  induction w generalizing f with
  | nil => rfl
  | cons c w ih =>
    obtain ⟨hc, hw⟩ := List.forall_mem_cons.1 hw
    have hescaped : (Hook.escaped (String.ofList (c :: w))).toList =
        (if c = '+' then ['\\', '+'] else [c]) ++ (Hook.escaped (String.ofList w)).toList := by
      simp only [Hook.escaped, String.toList_ofList, List.map_cons, String.join_cons,
        String.toList_append]
      split <;> simp
    have hadd : f.addWord (c :: w) = (f.add (.char c)).addWord w := rfl
    rw [hescaped, hadd, ← ih hw, List.append_assoc]
    by_cases hplus : c = '+'
    · subst hplus
      rfl
    · rw [if_neg hplus]
      exact readFrom_plain (hc.resolve_left hplus) _ _ _

/-- Alternatives are read up to the end of their group, and what they say is that one of the words
stands there. -/
theorem readFrom_alternatives {ws : List (List Char)} (hne : ws ≠ [])
    (hws : ∀ w ∈ ws, ∀ c ∈ w, c = '+' ∨ c ∉ special) (s : List Char)
    (r : RegularExpression Char) (g : Frame) (outer : List Frame) :
    ∃ q, readFrom (['|'].intercalate (ws.map fun w => (Hook.escaped (String.ofList w)).toList)
          ++ ')' :: s) { finished := r } (g :: outer) = readFrom s (g.add q) outer ∧
      ∀ x, x ∈ q.matches' ↔ x ∈ r.matches' ∨ x ∈ ws := by
  -- What has been read of the group before is in the finished alternatives.
  induction ws generalizing r with
  | nil => exact absurd rfl hne
  | cons w ws ih =>
    obtain ⟨hw, hws⟩ := List.forall_mem_cons.1 hws
    let f : Frame := Frame.addWord { finished := r } w
    have hclose (x : List Char) : x ∈ f.close.matches' ↔ x ∈ r.matches' ∨ x = w := by
      have hfinished : f.finished = r := finished_addWord _ w
      rw [Frame.close, RegularExpression.matches'_add, Language.mem_add, hfinished, mem_addWord]
      constructor
      · rintro (hr | ⟨a, ha, rfl⟩)
        · exact .inl hr
        · obtain rfl : a = [] := ha
          exact .inr rfl
      · rintro (hr | rfl)
        · exact .inl hr
        · exact .inr ⟨[], rfl, rfl⟩
    cases ws with
    | nil =>
      refine ⟨f.close, ?_, fun x => by rw [hclose, List.mem_singleton]⟩
      rw [List.map_singleton, List.intercalate_singleton, readFrom_escaped hw]
      rfl
    | cons v ws =>
      obtain ⟨q, hread, hq⟩ := ih (List.cons_ne_nil v ws) hws f.close
      refine ⟨q, ?_, fun x => ?_⟩
      · have hsplit : ['|'].intercalate
              ((w :: v :: ws).map fun w => (Hook.escaped (String.ofList w)).toList) =
            (Hook.escaped (String.ofList w)).toList ++ '|' :: ['|'].intercalate
              ((v :: ws).map fun w => (Hook.escaped (String.ofList w)).toList) := by
          rw [List.map_cons, List.map_cons, List.intercalate_cons_cons, List.append_assoc]
          rfl
        rw [hsplit, List.append_assoc, readFrom_escaped hw]
        exact hread
      · rw [hq, hclose, List.mem_cons (b := w), or_assoc]

end FilePattern

namespace Hook

theorem extensions_readable (hook : Hook) :
    hook.extensions ≠ [] ∧
      ∀ e ∈ hook.extensions, ∀ c ∈ e.toList, c = '+' ∨ c ∉ FilePattern.special := by
  have hplain : hook.extensions.all (fun e =>
      e.toList.all fun c => c == '+' || !FilePattern.special.contains c) = true := by
    cases hook <;> rfl
  constructor
  · cases hook <;> exact List.cons_ne_nil _ _
  · simpa only [List.all_eq_true, Bool.or_eq_true, beq_iff_eq, Bool.not_eq_true',
      List.contains_eq_mem, decide_eq_false_iff_not] using hplain

/-- A hook handles the files whose names end in a point and one of its extensions. -/
theorem handles_iff {hook : Hook} {file : String} : hook.handles file = true ↔
    ∃ e ∈ hook.extensions, ∃ stem, file = stem ++ "." ++ e := by
  rw [handles, List.any_eq_true]
  refine exists_congr fun e => and_congr_right fun _ => ?_
  rw [Text.endsWith, Text.isSome_after?_iff, List.reverse_prefix]
  constructor
  · rintro ⟨stem, hstem⟩
    exact ⟨String.ofList stem, String.toList_inj.1 (by simp [← hstem])⟩
  · rintro ⟨stem, rfl⟩
    exact ⟨stem.toList, by simp⟩

/-- The expression of a hook's pattern matches a point with one of the extensions. -/
theorem read?_filePattern (hook : Hook) : ∃ r, FilePattern.read? hook.filePattern.toList = some r ∧
    ∀ x, x ∈ r.matches' ↔ ∃ e ∈ hook.extensions, x = '.' :: e.toList := by
  obtain ⟨hne, hreadable⟩ := hook.extensions_readable
  let words := hook.extensions.map String.toList
  have hwords : ∀ w ∈ words, ∀ c ∈ w, c = '+' ∨ c ∉ FilePattern.special := by
    intro w hw
    obtain ⟨e, he, rfl⟩ := List.mem_map.1 hw
    exact hreadable e he
  let point : FilePattern.Frame := FilePattern.Frame.add {} (.char '.')
  obtain ⟨q, hread, hq⟩ := FilePattern.readFrom_alternatives (List.map_eq_nil_iff.not.2 hne) hwords
    [] 0 point []
  have hpoint (a : List Char) : a ∈ point.current.matches' ↔ a = ['.'] := by
    simp only [point, FilePattern.Frame.add, RegularExpression.matches'_mul,
      RegularExpression.matches'_epsilon, one_mul]
    rfl
  have hword (b : List Char) : b ∈ q.matches' ↔ ∃ e ∈ hook.extensions, e.toList = b := by
    rw [hq, RegularExpression.matches'_zero, or_iff_right (Language.notMem_zero b), List.mem_map]
  have hpattern : hook.filePattern.toList = ('\\' :: '.' :: '(' :: '?' :: ':' ::
      (['|'].intercalate (words.map fun w => (escaped (String.ofList w)).toList) ++ [')']))
        ++ ['$'] := by
    have hmap : (hook.extensions.map escaped).map String.toList =
        words.map fun w => (escaped (String.ofList w)).toList := by
      simp [words]
    rw [filePattern, String.toList_append, String.toList_append, String.toList_intercalate, hmap]
    simp
  refine ⟨(point.add q).close, ?_, fun x => ⟨?_, ?_⟩⟩
  · rw [FilePattern.read?, hpattern, if_pos List.getLast?_concat, List.dropLast_concat]
    exact hread
  · rintro (hx | hx)
    · exact absurd hx (Language.notMem_zero x)
    · obtain ⟨a, ha, b, hb, rfl⟩ := Language.mem_mul.1 hx
      obtain ⟨e, he, rfl⟩ := (hword b).1 hb
      exact ⟨e, he, by rw [(hpoint a).1 ha]; rfl⟩
  · rintro ⟨e, he, rfl⟩
    exact .inr (Language.mem_mul.2
      ⟨['.'], (hpoint _).2 rfl, e.toList, (hword _).2 ⟨e, he, rfl⟩, rfl⟩)

/-- The pattern of a hook is found in the names of the files that the hook handles. -/
theorem found_filePattern_iff {hook : Hook} {file : String} :
    FilePattern.Found hook.filePattern file ↔ hook.handles file = true := by
  obtain ⟨r, hread, hmatches⟩ := hook.read?_filePattern
  rw [FilePattern.Found, hread, handles_iff]
  constructor
  · rintro ⟨r', hr, stem, ending, hname, hending⟩
    obtain rfl := Option.some.inj hr
    obtain ⟨e, he, rfl⟩ := (hmatches ending).1 hending
    exact ⟨e, he, String.ofList stem, String.toList_inj.1 (by simp [hname])⟩
  · rintro ⟨e, he, stem, rfl⟩
    exact ⟨r, rfl, stem.toList, '.' :: e.toList, by simp, (hmatches _).2 ⟨e, he, rfl⟩⟩

end Hook

end LintHooks
