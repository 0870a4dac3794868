import LintHooks.Text.Lines
import Mathlib.Data.List.Infix
set_option autoImplicit false

/-!
# Diffs: patches

What a unified diff says to those who apply it.  A hunk tells what becomes of some lines, and its
heading where they stand: how many lines come before them, and how many they are, in the old and in
the new text.  A hunk is applied where its heading puts it, and only if its lines stand there.

Nothing here knows how diffs are made.

`patched?` applies hunks and `Patches` is what that comes to: hunks can be applied if and only if
they stand in the text with the headings that they have (`patched?_eq_some_iff`).  Of hunks that
stand there it may be known only in part what their headings say.  That part is `Framed`, and
`patched?_iff_of_framed` tells what has to be added to it: such hunks can be applied if and only if
the headings of all of them are `EndsRight`.  The last section is the format as text, read from its
end on (`read?`).
-/

namespace LintHooks.Diff.Patch

/-- What a line of a hunk is there for. -/
inductive Sign where
  | kept | removed | added
  deriving DecidableEq, Repr

/-- Some lines of a text: how many come before them, and how many they are. -/
structure Range where
  start : Nat
  count : Nat
  deriving DecidableEq, Repr

structure Hunk where
  old : Range
  new : Range
  lines : List (Sign × List Char)
  deriving DecidableEq, Repr

/-- The lines that have not got a sign. -/
def without (sign : Sign) (lines : List (Sign × List Char)) : List (List Char) :=
  (lines.filter fun line => line.1 ≠ sign).map Prod.snd

theorem mem_without {sign : Sign} {lines : List (Sign × List Char)} {line : Sign × List Char}
    (hline : line ∈ lines) (hsign : line.1 ≠ sign) : line.2 ∈ without sign lines :=
  List.mem_map_of_mem (List.mem_filter.2 ⟨hline, decide_eq_true hsign⟩)

namespace Hunk

/-- The lines that a hunk is applied to. -/
def oldLines (h : Hunk) : List (List Char) := without .added h.lines

/-- The lines that a hunk leaves. -/
def newLines (h : Hunk) : List (List Char) := without .removed h.lines

/-- The heading tells where the hunk stands and how long it is. -/
def Headed (h : Hunk) (i j : Nat) : Prop :=
  h.old = ⟨i, h.oldLines.length⟩ ∧ h.new = ⟨j, h.newLines.length⟩

instance (h : Hunk) (i j : Nat) : Decidable (h.Headed i j) :=
  inferInstanceAs (Decidable (_ ∧ _))

/-- The first line is a kept one. -/
def StartsKept (h : Hunk) : Prop := h.lines.head?.any (·.1 = .kept) = true

/-- The last line is a kept one. -/
def StopsKept (h : Hunk) : Prop := h.lines.getLast?.any (·.1 = .kept) = true

end Hunk

/-! ## Applying -/

/-- What hunks make of a text that `i` old and `j` new lines come before. -/
def patchedFrom? (i j : Nat) : List Hunk → List (List Char) → Option (List (List Char))
  | [], ls => some ls
  | h :: hs, ls =>
    let skip := h.old.start - i
    if h.Headed (i + skip) (j + skip) ∧ skip ≤ ls.length ∧ h.oldLines <+: ls.drop skip then
      (patchedFrom? (i + skip + h.oldLines.length) (j + skip + h.newLines.length) hs
        (ls.drop (skip + h.oldLines.length))).map fun rest => ls.take skip ++ h.newLines ++ rest
    else none

/-- What hunks make of a text, if each of them stands where its heading puts it. -/
def patched? (hs : List Hunk) (ls : List (List Char)) : Option (List (List Char)) :=
  patchedFrom? 0 0 hs ls

/-- Hunks take one text to another one: they stand in it one after the other, and what is between
them stays.  `P` holds of each hunk and its place. -/
inductive Patches (P : Hunk → Nat → Nat → Prop) :
    Nat → Nat → List (List Char) → List Hunk → List (List Char) → Prop where
  | nil {i j : Nat} (ls : List (List Char)) : Patches P i j ls [] ls
  | cons {i j : Nat} {h : Hunk} {hs : List Hunk} {ls ms : List (List Char)}
    (gap : List (List Char)) : P h (i + gap.length) (j + gap.length) →
    Patches P (i + gap.length + h.oldLines.length) (j + gap.length + h.newLines.length) ls hs ms →
    Patches P i j (gap ++ h.oldLines ++ ls) (h :: hs) (gap ++ h.newLines ++ ms)

variable {P Q : Hunk → Nat → Nat → Prop} {h : Hunk} {hs : List Hunk} {ls ms : List (List Char)}
  {i j : Nat}

/-- Hunks can be applied if and only if their headings tell where they stand. -/
theorem patchedFrom?_eq_some_iff :
    patchedFrom? i j hs ls = some ms ↔ Patches Hunk.Headed i j ls hs ms := by
  constructor
  · intro happly
    induction hs generalizing i j ls ms with
    | nil =>
      cases happly
      exact .nil ls
    | cons h hs ih =>
      rw [patchedFrom?] at happly
      split at happly
      · next hfits =>
        obtain ⟨hheaded, hskip, after, hafter⟩ := hfits
        obtain ⟨rest, hrest, rfl⟩ := Option.map_eq_some_iff.1 happly
        generalize h.old.start - i = skip at hheaded hskip hafter hrest ⊢
        have hlength : (ls.take skip).length = skip := List.length_take_of_le hskip
        have hls : ls = ls.take skip ++ h.oldLines ++ after := by
          rw [List.append_assoc, hafter, List.take_append_drop]
        have hdrop : ls.drop (skip + h.oldLines.length) = after := by
          rw [← List.drop_drop, ← hafter, List.drop_left]
        rw [hdrop] at hrest
        have hpatches := Patches.cons (ls.take skip) (by rwa [hlength])
          (by rw [hlength]; exact ih hrest)
        rwa [← hls] at hpatches
      · cases happly
  · intro hpatches
    induction hpatches with
    | nil ls => rfl
    | @cons i j h hs ls ms gap hheaded hrest ih =>
      have hskip : h.old.start - i = gap.length := by
        rw [hheaded.1]
        exact Nat.add_sub_cancel_left ..
      have hfits : gap.length ≤ (gap ++ (h.oldLines ++ ls)).length := by
        rw [List.length_append]
        exact Nat.le_add_right _ _
      rw [patchedFrom?, hskip, List.append_assoc gap, List.drop_left,
        if_pos ⟨hheaded, hfits, List.prefix_append _ _⟩,
        ← List.drop_drop, List.drop_left, List.drop_left, List.take_left, ih, Option.map_some]

theorem patched?_eq_some_iff : patched? hs ls = some ms ↔ Patches Hunk.Headed 0 0 ls hs ms :=
  patchedFrom?_eq_some_iff

namespace Patches

/-- Each hunk has a place in both texts. -/
theorem place (hpatches : Patches P i j ls hs ms) (hh : h ∈ hs) :
    ∃ p q, P h p q ∧ p + h.oldLines.length ≤ i + ls.length ∧
      q + h.newLines.length ≤ j + ms.length := by
  induction hpatches with
  | nil => cases hh
  | cons gap hplace _ ih =>
    rcases List.mem_cons.1 hh with rfl | hh
    · exact ⟨_, _, hplace, by simp; omega, by simp; omega⟩
    · obtain ⟨p, q, hp, hold, hnew⟩ := ih hh
      exact ⟨p, q, hp, by simp; omega, by simp; omega⟩

theorem imp (hpatches : Patches P i j ls hs ms) (himp : ∀ h ∈ hs, ∀ p q, P h p q → Q h p q) :
    Patches Q i j ls hs ms := by
  induction hpatches with
  | nil ls => exact .nil ls
  | cons gap hplace _ ih =>
    exact .cons gap (himp _ List.mem_cons_self _ _ hplace)
      (ih fun h hh => himp h (List.mem_cons_of_mem _ hh))

end Patches

/-! ## Headings that kept lines vouch for -/

/-- A hunk of texts of `n` and `m` lines: where kept lines start or stop it, its heading tells the
place; elsewhere it starts at the beginning or stops at the end of both texts, whatever its heading
says. -/
structure Framed (n m : Nat) (h : Hunk) (i j : Nat) : Prop where
  start : h.StartsKept ∧ h.old.start = i ∧ h.new.start = j ∨ ¬ h.StartsKept ∧ i = 0 ∧ j = 0
  stop : h.StopsKept ∧ h.old.count = i + h.oldLines.length - h.old.start ∧
      h.new.count = j + h.newLines.length - h.new.start ∨
    ¬ h.StopsKept ∧ i + h.oldLines.length = n ∧ j + h.newLines.length = m

/-- Where no kept lines vouch for it, the heading says that the hunk starts at the beginning or
stops at the end of both texts. -/
structure EndsRight (n m : Nat) (h : Hunk) : Prop where
  start : ¬ h.StartsKept → h.old.start = 0 ∧ h.new.start = 0
  stop : ¬ h.StopsKept → h.old.start + h.old.count = n ∧ h.new.start + h.new.count = m

theorem Framed.headed {n m : Nat} (hframed : Framed n m h i j) (hends : EndsRight n m h) :
    h.Headed i j := by
  have hstart : h.old.start = i ∧ h.new.start = j := by
    rcases hframed.start with ⟨-, hstart⟩ | ⟨hother, rfl, rfl⟩
    · exact hstart
    · exact hends.start hother
  have hcount : h.old.count = h.oldLines.length ∧ h.new.count = h.newLines.length := by
    rcases hframed.stop with ⟨-, hold, hnew⟩ | ⟨hother, hold, hnew⟩
    · omega
    · have := hends.stop hother
      omega
  rw [Hunk.Headed, ← hstart.1, ← hstart.2, ← hcount.1, ← hcount.2]
  exact ⟨rfl, rfl⟩

theorem Hunk.StopsKept.lines_pos (h : Hunk) (hkept : h.StopsKept) :
    0 < h.oldLines.length ∧ 0 < h.newLines.length := by
  rw [Hunk.StopsKept, Option.any_eq_true] at hkept
  obtain ⟨line, hlast, hline⟩ := hkept
  have hmem := List.mem_of_getLast? hlast
  have hsign : line.1 = .kept := of_decide_eq_true hline
  exact ⟨List.length_pos_of_mem (mem_without hmem (by rw [hsign]; decide)),
    List.length_pos_of_mem (mem_without hmem (by rw [hsign]; decide))⟩

/-- A hunk whose heading is right for some place in both texts stands there: with another start the
heading of a hunk that starts without kept lines would be short of lines or over the end. -/
theorem Framed.endsRight {n m p q : Nat} (hframed : Framed n m h i j) (hheaded : h.Headed p q)
    (hp : p + h.oldLines.length ≤ n) (hq : q + h.newLines.length ≤ m) : EndsRight n m h := by
  obtain ⟨hold, hnew⟩ := hheaded
  have hstarts : h.old.start = p ∧ h.new.start = q := ⟨by rw [hold], by rw [hnew]⟩
  have hcounts : h.old.count = h.oldLines.length ∧ h.new.count = h.newLines.length :=
    ⟨by rw [hold], by rw [hnew]⟩
  have hstart : ¬ h.StartsKept → h.old.start = 0 ∧ h.new.start = 0 := by
    intro hother
    rcases hframed.start with ⟨hkept, -⟩ | ⟨-, rfl, rfl⟩
    · exact absurd hkept hother
    · -- Kept lines at the end make the count tell the start; without them the hunk is all there is.
      rcases hframed.stop with ⟨hkept, hcount⟩ | ⟨-, hstop⟩
      · have := hkept.lines_pos
        omega
      · omega
  refine ⟨hstart, fun hother => ?_⟩
  rcases hframed.stop with ⟨hkept, -⟩ | ⟨-, hstop⟩
  · exact absurd hkept hother
  · rcases hframed.start with ⟨-, hplace⟩ | ⟨hother, rfl, rfl⟩
    · omega
    · have := hstart hother
      omega

/-- Framed hunks can be applied if and only if the headings are right at the ends of the texts. -/
theorem patched?_iff_of_framed (hpatches : Patches (Framed ls.length ms.length) 0 0 ls hs ms) :
    patched? hs ls = some ms ↔ ∀ h ∈ hs, EndsRight ls.length ms.length h := by
  rw [patched?_eq_some_iff]
  constructor
  · intro hheaded h hh
    obtain ⟨i, j, hframed, -, -⟩ := hpatches.place hh
    obtain ⟨p, q, hplace, hp, hq⟩ := hheaded.place hh
    rw [Nat.zero_add] at hp hq
    exact hframed.endsRight hplace hp hq
  · exact fun hends => hpatches.imp fun h hh p q hframed => hframed.headed (hends h hh)

/-! ## Reading -/

def readNumber? (s : List Char) : Option Nat :=
  if s ≠ [] ∧ s.all Char.isDigit then some (Nat.ofDigitChars 10 s 0) else none

/-- A range is written as its first line, counted from one, and how many lines it has, unless that
is one.  An empty range is written with the line before it. -/
def readRange? (s : List Char) : Option Range :=
  match Text.cut? ',' s with
  | none =>
    match readNumber? s with
    | some (start + 1) => some ⟨start, 1⟩
    | _ => none
  | some (first, count) =>
    match readNumber? first, readNumber? count with
    | some start, some 0 => some ⟨start, 0⟩
    | some (start + 1), some count => some ⟨start, count⟩
    | _, _ => none

/-- The old and the new range of a heading. -/
def readHeading? (line : List Char) : Option (Range × Range) := do
  let s ← Text.after? ['@', '@', ' ', '-'] line
  let (old, s) ← Text.cut? ' ' s
  let s ← Text.after? ['+'] s
  let (new, s) ← Text.cut? ' ' s
  if s = ['@', '@', '\n'] then
    let old ← readRange? old
    let new ← readRange? new
    some (old, new)
  else none

/-- What stands after a line that has no line feed. -/
def note : List Char := "\\ No newline at end of file\n".toList

def readSign? : Char → Option Sign
  | ' ' => some .kept
  | '-' => some .removed
  | '+' => some .added
  | _ => none

/-- What has been read of a diff, from its end on. -/
structure Reading where
  /-- Whether a note stands at its beginning. -/
  noted : Bool
  /-- The lines before the first heading. -/
  lines : List (Sign × List Char)
  hunks : List Hunk
  deriving DecidableEq, Repr

/-- Reads the line before what has been read. -/
def Reading.line? (r : Reading) (line : List Char) : Option Reading :=
  if line = note then if r.noted then none else some { r with noted := true }
  else match line with
    | [] => none
    | c :: text =>
      match readSign? c with
      | some sign =>
        some ⟨false, (sign, if r.noted then text.dropLast else text) :: r.lines, r.hunks⟩
      | none =>
        if r.noted then none
        else (readHeading? line).map fun (old, new) => ⟨false, [], ⟨old, new, r.lines⟩ :: r.hunks⟩

def readLines? : List (List Char) → Option Reading
  | [] => some ⟨false, [], []⟩
  | line :: lines => (readLines? lines).bind fun r => r.line? line

/-- The hunks of a unified diff of two texts of these names.  A text without lines is a diff without
hunks. -/
def read? (oldName newName diff : List Char) : Option (List Hunk) :=
  match Text.pieces diff with
  | [] => some []
  | old :: new :: lines =>
    if old = "--- ".toList ++ oldName ++ ['\n'] ∧ new = "+++ ".toList ++ newName ++ ['\n'] then
      match readLines? lines with
      | some ⟨false, [], hunks⟩ => some hunks
      | _ => none
    else none
  | _ => none

end LintHooks.Diff.Patch
