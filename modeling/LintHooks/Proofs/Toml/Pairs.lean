import LintHooks.Proofs.Toml.Quoted
import LintHooks.Toml.Document
set_option autoImplicit false

/-!
# TOML: documents of plain pairs

A document in which every line gives one bare key its value is read as the table of
those keys and values, in the order of the lines.  What a line needs is that its value
is written in a way that reads back whatever stands behind it (`Written`), and what
the document needs is that no key has two lines.

The main result is `parse?_lines`.  One half of it is `statements?_lines`, that each line is read as
a statement of its own (`readStatement?_text`), and the other `foldlM_add`, that each statement adds
its pair behind the others (`add_pair`).  The values that are written this way are truth values
(`written_truth`), texts (`written_text`) and lists of texts (`written_list`).
-/

namespace LintHooks.Toml

variable {t rest : List Char}

/-! ## Written values -/

/-- A text that denotes a value wherever it stands, unless a quote follows. -/
structure Written (w : List Char) (v : Value) : Prop where
  /-- The blanks in front of a value are no part of it. -/
  head : ∃ c t, w = c :: t ∧ isInlineBlank c = false
  read : ∀ rest, Unquoted rest → readValue? nestingLimit (w ++ rest) = some (v, rest)

theorem written_truth (b : Bool) :
    Written (if b then "true".toList else "false".toList) (.truth b) := by
  cases b
  · exact ⟨⟨'f', _, rfl, by decide⟩, fun rest _ => rfl⟩
  · exact ⟨⟨'t', _, rfl, by decide⟩, fun rest _ => rfl⟩

/-- A quoted text denotes itself at every depth. -/
theorem readValue?_writeQuoted (depth : Nat) (s : String) (hr : Unquoted rest) :
    readValue? depth (writeQuoted s.toList ++ rest) = some (.text s, rest) := by
  have hread := readQuoted?_writeQuoted (s := s.toList) hr
  obtain ⟨q, t, he, hq⟩ := writeQuoted_head s.toList
  rw [he, List.cons_append] at hread ⊢
  have hscalar : readScalar? (q :: (t ++ rest)) = some (.text s, rest) := by
    rcases hq with rfl | rfl <;>
      simp only [readScalar?, hread, Option.map_some, String.ofList_toList]
  rcases hq with rfl | rfl <;> cases depth <;> exact hscalar

theorem not_isInlineBlank_quote {q : Char} (hq : q = '"' ∨ q = '\'') :
    isInlineBlank q = false := by
  rcases hq with rfl | rfl <;> decide

theorem written_text (s : String) : Written (writeQuoted s.toList) (.text s) := by
  obtain ⟨q, t, he, hq⟩ := writeQuoted_head s.toList
  exact ⟨⟨q, t, he, not_isInlineBlank_quote hq⟩, fun rest => readValue?_writeQuoted _ s⟩

/-! ### Lists of texts -/

theorem skipFiller_quoted (s rest : List Char) :
    skipFiller false (writeQuoted s ++ rest) = some (writeQuoted s ++ rest) := by
  obtain ⟨q, t, he, hq⟩ := writeQuoted_head s
  rw [he]
  rcases hq with rfl | rfl <;> rfl

/-- One item of an array, with what the separator behind it says about the next. -/
theorem readItems?_step {item : Reader Value} {n : Nat} {input s r : List Char} {v : Value}
    (hi : skipFiller false input = some s) (hs : s.head? ≠ some ']') (hv : item s = some (v, r)) :
    readItems? item (n + 1) input =
      match skipFiller false r with
      | some (']' :: r) => some ([v], r)
      | some (',' :: r) => (readItems? item n r).map fun (vs, r) => (v :: vs, r)
      | _ => none := by
  rw [readItems?, hi]
  simp only [Option.bind_eq_bind, Option.bind_some]
  split
  · exact absurd rfl hs
  · simp only [hv, Option.bind_some]
    cases skipFiller false r with
    | none => rfl
    | some r => simp only [Option.bind_some]; split <;> simp_all

/-- The written items of a list of texts, with a comma and a blank between them. -/
def writtenItems (xs : List String) : List Char :=
  [',', ' '].intercalate (xs.map fun x => writeQuoted x.toList)

theorem writtenItems_cons_cons (x y : String) (ys : List String) (t : List Char) :
    writtenItems (x :: y :: ys) ++ t
      = writeQuoted x.toList ++ ',' :: ' ' :: (writtenItems (y :: ys) ++ t) := by
  simp only [writtenItems, List.map_cons, List.intercalate_cons_cons, List.append_assoc,
    List.cons_append, List.nil_append]

theorem skipFiller_writtenItems (y : String) (ys : List String) (t : List Char) :
    skipFiller false (writtenItems (y :: ys) ++ t) = some (writtenItems (y :: ys) ++ t) := by
  cases ys with
  | nil =>
    rw [writtenItems, List.map_singleton, List.intercalate_singleton]
    exact skipFiller_quoted y.toList t
  | cons z zs =>
    rw [writtenItems_cons_cons]
    exact skipFiller_quoted y.toList _

/-- The items of a written list are read one by one.  The filler in front of an item is skipped
by the reader itself, so the statement is about what is left behind it. -/
theorem readItems?_writtenItems (depth : Nat) {n : Nat} {xs : List String} {input : List Char}
    (hn : xs.length < n)
    (hi : skipFiller false input = some (writtenItems xs ++ ']' :: rest)) :
    readItems? (readValue? depth) n input = some (xs.map Value.text, rest) := by
  induction xs generalizing n input with
  | nil =>
    obtain ⟨n, rfl⟩ := Nat.exists_eq_succ_of_ne_zero (Nat.ne_of_gt hn)
    rw [readItems?, hi]
    rfl
  | cons x xs ih =>
    obtain ⟨n, rfl⟩ := Nat.exists_eq_succ_of_ne_zero (Nat.ne_of_gt (Nat.zero_lt_of_lt hn))
    have hopen (r : List Char) : (writeQuoted x.toList ++ r).head? ≠ some ']' := by
      obtain ⟨q, t, he, hq⟩ := writeQuoted_head x.toList
      rw [he]
      rcases hq with rfl | rfl <;> exact fun h => absurd (Option.some.inj h) (by decide)
    cases xs with
    | nil =>
      rw [writtenItems, List.map_singleton, List.intercalate_singleton] at hi
      have hread := readValue?_writeQuoted depth x
        (unquoted_cons (c := ']') (by decide) (by decide) rest)
      rw [readItems?_step hi (hopen _) hread]
      rfl
    | cons y ys =>
      rw [writtenItems_cons_cons] at hi
      have hread := readValue?_writeQuoted depth x (unquoted_cons (c := ',') (by decide) (by decide)
        (' ' :: (writtenItems (y :: ys) ++ ']' :: rest)))
      have hcomma (r : List Char) : skipFiller false (',' :: r) = some (',' :: r) := rfl
      have hblank (r : List Char) : skipFiller false (' ' :: r) = skipFiller false r := rfl
      have hnext := ih (Nat.lt_of_succ_lt_succ hn)
        ((hblank _).trans (skipFiller_writtenItems y ys (']' :: rest)))
      rw [readItems?_step hi (hopen _) hread, hcomma]
      simp only [hnext, Option.map_some, List.map_cons]

theorem length_le_writtenItems (xs : List String) : xs.length ≤ (writtenItems xs).length := by
  induction xs with
  | nil => exact Nat.zero_le _
  | cons x xs ih =>
    obtain ⟨q, t, he, -⟩ := writeQuoted_head x.toList
    cases xs with
    | nil =>
      rw [writtenItems, List.map_singleton, List.intercalate_singleton, he]
      exact Nat.le_add_left 1 t.length
    | cons y ys =>
      have h := congrArg List.length (writtenItems_cons_cons x y ys [])
      simp only [List.append_nil, List.length_append, List.length_cons] at h ih ⊢
      omega

theorem written_list (xs : List String) :
    Written (['['] ++ writtenItems xs ++ [']']) (.array (xs.map Value.text)) := by
  refine ⟨⟨'[', _, rfl, by decide⟩, fun rest _ => ?_⟩
  have hskip : skipFiller false (writtenItems xs ++ ']' :: rest)
      = some (writtenItems xs ++ ']' :: rest) := by
    cases xs with
    | nil => rfl
    | cons x xs => exact skipFiller_writtenItems x xs _
  have hn : xs.length < (writtenItems xs ++ ']' :: rest).length + 1 := by
    have := length_le_writtenItems xs
    simp only [List.length_append]
    omega
  have hread := readItems?_writtenItems (nestingLimit - 1) hn hskip
  simp only [List.append_assoc, List.cons_append, List.nil_append]
  exact congrArg (Option.map fun (vs, s) => (Value.array vs, s)) hread

/-! ## Bare keys -/

/-- A key that needs no quotes. -/
structure BareKey (key : String) : Prop where
  ne_nil : key.toList ≠ []
  bare : ∀ c ∈ key.toList, isBare c = true

/-- Characters that end a bare key or mean something in front of it. -/
theorem ne_of_isBare {c d : Char} (hc : isBare c = true) (hd : isBare d = false) : c ≠ d := by
  rintro rfl
  exact absurd hc (by rw [hd]; decide)

theorem not_isInlineBlank_of_isBare {c : Char} (h : isBare c = true) :
    isInlineBlank c = false := by
  have hs : c ≠ ' ' := ne_of_isBare h (by decide)
  have ht : c ≠ '\t' := ne_of_isBare h (by decide)
  simp [isInlineBlank, hs, ht]

theorem skipInline_of_head {c : Char} (h : isInlineBlank c = false) (t : List Char) :
    skipInline (c :: t) = c :: t :=
  List.dropWhile_cons_of_neg (by rw [h]; decide)

theorem BareKey.exists_cons {key : String} (h : BareKey key) :
    ∃ c k, key.toList = c :: k ∧ isBare c = true := by
  obtain ⟨c, k, he⟩ := List.exists_cons_of_ne_nil h.ne_nil
  exact ⟨c, k, he, h.bare c (he ▸ List.mem_cons_self)⟩

theorem readKeyPart?_bare {key : String} (h : BareKey key) (t : List Char) :
    readKeyPart? (key.toList ++ ' ' :: t) = some (key, ' ' :: t) := by
  obtain ⟨c, k, he, hc⟩ := h.exists_cons
  have htake : (key.toList ++ ' ' :: t).takeWhile isBare = key.toList := by
    rw [List.takeWhile_append_of_pos h.bare,
      List.takeWhile_cons_of_neg (by decide), List.append_nil]
  have hdrop : (key.toList ++ ' ' :: t).dropWhile isBare = ' ' :: t := by
    rw [List.dropWhile_append_of_pos h.bare, List.dropWhile_cons_of_neg (by decide)]
  unfold readKeyPart?
  split
  · next hs =>
    rw [he] at hs
    exact absurd (List.cons.inj hs).1 (ne_of_isBare hc (by decide))
  · next hs =>
    rw [he] at hs
    exact absurd (List.cons.inj hs).1 (ne_of_isBare hc (by decide))
  · rw [htake, hdrop]
    simp only [h.ne_nil, if_false, String.ofList_toList]

theorem readKey?_bare {key : String} (h : BareKey key) (t : List Char) :
    readKey? (key.toList ++ ' ' :: '=' :: t) = some ([key], '=' :: t) := by
  obtain ⟨c, k, he, hc⟩ := h.exists_cons
  have hskip : skipInline (key.toList ++ ' ' :: '=' :: t) = key.toList ++ ' ' :: '=' :: t := by
    rw [he]
    exact skipInline_of_head (not_isInlineBlank_of_isBare hc) _
  have hblank : skipInline (' ' :: '=' :: t) = '=' :: t := rfl
  rw [readKey?, show nestingLimit = 78 + 1 from rfl, readKeyParts?, hskip, readKeyPart?_bare h]
  simp only [Option.bind_eq_bind, Option.bind_some, hblank]
  rfl

/-! ## Lines -/

/-- A line that gives a key a value. -/
structure PairLine where
  key : String
  /-- The value as it is written. -/
  written : List Char
  value : Value

namespace PairLine

/-- The text of a line. -/
def text (p : PairLine) : List Char := p.key.toList ++ [' ', '=', ' '] ++ p.written ++ ['\n']

/-- What a line says. -/
def statement (p : PairLine) : Statement := .pair [p.key] p.value

structure Valid (p : PairLine) : Prop where
  key : BareKey p.key
  value : Written p.written p.value

theorem text_append (p : PairLine) (t : List Char) :
    p.text ++ t = p.key.toList ++ ' ' :: '=' :: ' ' :: (p.written ++ '\n' :: t) := by
  simp only [text, List.append_assoc, List.cons_append, List.nil_append]

theorem readPair?_text {p : PairLine} (h : p.Valid) (t : List Char) :
    readPair? (readValue? nestingLimit) (p.text ++ t)
      = some (([p.key], p.value), '\n' :: t) := by
  obtain ⟨c, w, hw, hc⟩ := h.value.head
  have hblank : skipInline (' ' :: (p.written ++ '\n' :: t)) = p.written ++ '\n' :: t := by
    rw [hw]
    exact skipInline_of_head hc _
  have hread := h.value.read ('\n' :: t) (unquoted_cons (by decide) (by decide) t)
  rw [readPair?, text_append, readKey?_bare h.key]
  simp only [Option.bind_eq_bind, Option.bind_some, hblank, hread]

theorem readStatement?_text {p : PairLine} (h : p.Valid) (t : List Char) :
    readStatement? (p.text ++ t) = some (p.statement, '\n' :: t) := by
  obtain ⟨c, k, he, hc⟩ := h.key.exists_cons
  have hopen : (p.text ++ t).head? ≠ some '[' := by
    rw [text_append, he]
    exact fun h => ne_of_isBare hc (by decide) (Option.some.inj h)
  unfold readStatement?
  split
  · next hs => exact absurd (by rw [hs]; rfl) hopen
  · next hs => exact absurd (by rw [hs]; rfl) hopen
  · rw [readPair?_text h]
    rfl

theorem readStatements?_text {p : PairLine} (h : p.Valid) (n : Nat) (t : List Char) :
    readStatements? (n + 1) (p.text ++ t) = (readStatements? n t).map (p.statement :: ·) := by
  obtain ⟨c, k, he, hc⟩ := h.key.exists_cons
  have hhead : p.text ++ t = c :: (k ++ ' ' :: '=' :: ' ' :: (p.written ++ '\n' :: t)) := by
    rw [text_append, he]
    rfl
  have hskip : skipInline (p.text ++ t) = p.text ++ t := by
    rw [hhead]
    exact skipInline_of_head (not_isInlineBlank_of_isBare hc) _
  have hopen : ¬ (c = '#' ∨ c = '\n' ∨ c = '\r') := by
    rintro (h | h | h) <;> exact ne_of_isBare hc (by decide) h
  have hread := readStatement?_text h t
  have hend : lineEnd? ('\n' :: t) = some t := rfl
  rw [readStatements?, hskip, hhead]
  simp only [if_neg hopen]
  rw [← hhead, hread]
  simp only [Option.bind_eq_bind, Option.bind_some, hend]
  cases readStatements? n t <;> rfl

end PairLine

/-! ## Documents -/

variable {ps : List PairLine}

theorem readStatements?_lines {n : Nat} (hv : ∀ p ∈ ps, p.Valid) (hn : ps.length < n) :
    readStatements? n (ps.flatMap PairLine.text) = some (ps.map PairLine.statement) := by
  induction ps generalizing n with
  | nil =>
    obtain ⟨n, rfl⟩ := Nat.exists_eq_succ_of_ne_zero (Nat.ne_of_gt hn)
    rfl
  | cons p ps ih =>
    obtain ⟨n, rfl⟩ := Nat.exists_eq_succ_of_ne_zero (Nat.ne_of_gt (Nat.zero_lt_of_lt hn))
    obtain ⟨hp, hps⟩ := List.forall_mem_cons.1 hv
    rw [List.flatMap_cons, PairLine.readStatements?_text hp,
      ih hps (Nat.lt_of_succ_lt_succ hn)]
    rfl

theorem length_le_lines (ps : List PairLine) :
    ps.length ≤ (ps.flatMap PairLine.text).length := by
  induction ps with
  | nil => exact Nat.zero_le _
  | cons p ps ih =>
    simp only [List.flatMap_cons, PairLine.text, List.length_append, List.length_cons]
    omega

theorem statements?_lines (hv : ∀ p ∈ ps, p.Valid) :
    statements? (ps.flatMap PairLine.text) = some (ps.map PairLine.statement) := by
  have hread := readStatements?_lines hv (Nat.lt_succ_of_le (length_le_lines ps))
  have hmark : (ps.flatMap PairLine.text).head? ≠ some '\uFEFF' := by
    cases ps with
    | nil => exact fun h => nomatch h
    | cons p ps =>
      obtain ⟨c, k, he, hc⟩ := (hv p List.mem_cons_self).key.exists_cons
      rw [List.flatMap_cons, PairLine.text_append, he]
      exact fun h => ne_of_isBare hc (by decide) (Option.some.inj h)
  unfold statements?
  split
  · next hs => exact absurd (by rw [hs]; rfl) hmark
  · exact hread

/-- A pair with a new key goes to the end of the open table. -/
theorem add_pair {b : Builder} {key : String} (h : key ∉ b.table.map Prod.fst) (v : Value) :
    b.add (.pair [key] v) = some { b with table := b.table ++ [(key, .leaf v)] } := by
  have hfree : b.table.lookup key = none := by
    rw [List.lookup_eq_none_iff]
    intro e he
    refine bne_iff_ne.2 ?_
    rintro rfl
    exact h (List.mem_map_of_mem he)
  have hset : setNew key (.leaf v) b.table = some (b.table ++ [(key, .leaf v)]) := by
    rw [setNew, hfree]
    rfl
  show (setNew key (.leaf v) b.table).map (fun table => { b with table }) = _
  rw [hset, Option.map_some]

theorem foldlM_add {b : Builder} (hk : (b.table.map Prod.fst ++ ps.map PairLine.key).Nodup) :
    (ps.map PairLine.statement).foldlM Builder.add b
      = some { b with table := b.table ++ ps.map fun p => (p.key, .leaf p.value) } := by
  induction ps generalizing b with
  | nil => simp
  | cons p ps ih =>
    have hnew : p.key ∉ b.table.map Prod.fst := by
      intro h
      exact (List.nodup_append.1 hk).2.2 p.key h p.key List.mem_cons_self rfl
    rw [List.map_cons, List.foldlM_cons, PairLine.statement, add_pair hnew]
    simp only [Option.bind_eq_bind, Option.bind_some]
    rw [ih (by simpa using hk)]
    simp

theorem entriesValue_leaves (ps : List PairLine) :
    entriesValue (ps.map fun p => (p.key, .leaf p.value)) = ps.map fun p => (p.key, p.value) := by
  induction ps with
  | nil => rfl
  | cons p ps ih =>
    rw [List.map_cons, entriesValue, ih]
    rfl

/-- A document of plain pairs is read as the table of its keys and values. -/
theorem parse?_lines (hv : ∀ p ∈ ps, p.Valid) (hk : (ps.map PairLine.key).Nodup) :
    parse? (ps.flatMap PairLine.text) = some (ps.map fun p => (p.key, p.value)) := by
  have hbuild := foldlM_add (b := {}) (by simpa using hk)
  rw [parse?, statements?_lines hv]
  simp only [Option.bind_eq_bind, Option.bind_some, build?, hbuild]
  exact congrArg some (entriesValue_leaves ps)

end LintHooks.Toml
