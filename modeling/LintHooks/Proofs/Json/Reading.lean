import LintHooks.Proofs.Json.Scanning
import Mathlib.Data.List.Forall2
set_option autoImplicit false

/-!
# JSON: reading values of a known sort

A reader is described by a relation between the values of the grammar and what it makes of them.  It
has to read every way to write a value, to refuse every value that means nothing to it, and to read
nothing that is no value.  Such readers are put together as the sorts are.

That description is `Reads`.  There is one lemma for each way to put readers together: for texts
(`reads_textAs`), for what may be null (`Reads.nullable`), and for lists (`Reads.list`), by
induction on the items in one direction and on the bound for them in the other (`Reads.items_iff`,
`Reads.items_sound`).  What each value of a type is written as can also be given by a function; the
same lemmas then have the form `Decodes`.  The main result is `Reads.whole_eq_ok_iff`: a whole text
is read if and only if it is a document that means something to the reader.
-/

namespace LintHooks.Json

variable {α β : Type} {read : Reader α} {Means : Value → α → Prop}

/-- A reader takes the values that mean something, and nothing else. -/
structure Reads (read : Reader α) (Means : Value → α → Prop) : Prop where
  /-- A value is read up to its end, and as what it means. -/
  reads_iff : ∀ {v : Value} {s t r : List Char}, Space s t → Written v t r → Ended r →
    ∀ (x : α) (r' : List Char), read s = .ok (x, r') ↔ r' = r ∧ Means v x
  /-- Only values are read. -/
  sound : ∀ {s r : List Char} {x : α}, read s = .ok (x, r) →
    ∃ v t, Space s t ∧ Written v t r ∧ Means v x

namespace Reads

/-- What is read can be put in another form. -/
theorem map (hread : Reads read Means) (f : α → β) :
    Reads (fun s => (read s).map fun p => (f p.1, p.2)) fun v y => ∃ x, Means v x ∧ f x = y where
  reads_iff hspace hv hr y r' := by
    rw [map_eq_ok_iff]
    constructor
    · rintro ⟨⟨x, _⟩, hx, heq⟩
      obtain ⟨rfl, rfl⟩ := Prod.mk.inj heq
      obtain ⟨rfl, hmeans⟩ := (hread.reads_iff hspace hv hr x _).1 hx
      exact ⟨rfl, x, hmeans, rfl⟩
    · rintro ⟨rfl, x, hmeans, rfl⟩
      exact ⟨(x, r'), (hread.reads_iff hspace hv hr x r').2 ⟨rfl, hmeans⟩, rfl⟩
  sound h := by
    obtain ⟨⟨x, _⟩, hx, heq⟩ := map_eq_ok_iff.1 h
    obtain ⟨rfl, rfl⟩ := Prod.mk.inj heq
    obtain ⟨v, t, hspace, hv, hmeans⟩ := hread.sound hx
    exact ⟨v, t, hspace, hv, x, hmeans, rfl⟩

/-- A reader is described by any relation that says the same. -/
theorem congr {Means' : Value → α → Prop} (hread : Reads read Means)
    (h : ∀ v x, Means v x ↔ Means' v x) : Reads read Means' := by
  obtain rfl : Means = Means' := funext fun v => funext fun x => propext (h v x)
  exact hread

end Reads

/-! ## Texts and null -/

theorem readTextAs_quote (wanted : String) {s u : List Char} (h : Space s ('"' :: u)) :
    readTextAs wanted s = (readText u).map fun p => (String.ofList p.1, p.2) := by
  rw [readTextAs, h.skipSpace_cons (by decide)]
  rfl

theorem readTextAs_other (wanted : String) {s u : List Char} {c : Char} (h : Space s (c :: u))
    (hspace : isSpace c = false) (hc : c ≠ '"') :
    readTextAs wanted s = .error (wrongValue wanted (c :: u)) := by
  rw [readTextAs, h.skipSpace_cons hspace]
  split
  · next heq => cases heq
  · next heq => exact absurd (List.cons.inj heq).1 hc
  · rfl

/-- A text is read where a text is wanted. -/
theorem reads_textAs (wanted : String) :
    Reads (readTextAs wanted) fun v s => v = .text (some s) where
  reads_iff {v s t r} hspace hv hr x r' := by
    obtain ⟨c, u, rfl, hc⟩ := hv.head
    by_cases hquote : c = '"'
    · subst hquote
      obtain ⟨content, rfl, hquoted⟩ := hv.of_quote
      rw [readTextAs_quote wanted hspace, map_eq_ok_iff]
      constructor
      · rintro ⟨⟨cs, _⟩, hcs, heq⟩
        obtain ⟨rfl, rfl⟩ := Prod.mk.inj heq
        obtain ⟨rfl, rfl⟩ := hquoted.readText_eq_ok_iff.1 hcs
        exact ⟨rfl, rfl⟩
      · rintro ⟨rfl, heq⟩
        refine ⟨(x.toList, r'), hquoted.readText_eq_ok_iff.2 ⟨rfl, ?_⟩, ?_⟩
        · rw [String.ofList_toList]
          exact Value.text.inj heq
        · rw [String.ofList_toList]
    · rw [readTextAs_other wanted hspace (not_isSpace_of_startsValue hc) hquote]
      refine ⟨nofun, ?_⟩
      rintro ⟨-, rfl⟩
      cases hv with
      | text hq =>
        obtain ⟨_, heq⟩ := hq.head
        exact absurd (List.cons.inj heq).1 hquote
  sound {s r x} h := by
    rw [readTextAs] at h
    split at h
    · cases h
    · next u hs =>
      obtain ⟨⟨cs, _⟩, hcs, heq⟩ := map_eq_ok_iff.1 h
      obtain ⟨rfl, rfl⟩ := Prod.mk.inj heq
      exact ⟨_, _, space_of_skipSpace hs, .text (.spelled (readText_eq_ok_iff.1 hcs)), rfl⟩
    · cases h

theorem readNullable_n (read : Reader α) {s u : List Char} (h : Space s ('n' :: u)) :
    readNullable read s = (readWord ['u', 'l', 'l'] u).map fun s => (none, s) := by
  rw [readNullable, h.skipSpace_cons (by decide)]
  rfl

theorem readNullable_other (read : Reader α) {s u : List Char} {c : Char} (h : Space s (c :: u))
    (hspace : isSpace c = false) (hc : c ≠ 'n') :
    readNullable read s = (read (c :: u)).map fun p => (some p.1, p.2) := by
  rw [readNullable, h.skipSpace_cons hspace]
  split
  · next heq => exact absurd (List.cons.inj heq).1 hc
  · rfl

/-- A value is read where it may be null. -/
theorem Reads.nullable (hread : Reads read Means) (hnull : ∀ x, ¬ Means .null x) :
    Reads (readNullable read) fun v y =>
      (v = .null ∧ y = none) ∨ ∃ x, Means v x ∧ some x = y where
  reads_iff {v s t r} hspace hv hr y r' := by
    obtain ⟨c, u, rfl, hc⟩ := hv.head
    by_cases hn : c = 'n'
    · subst hn
      obtain ⟨rfl, rfl⟩ := hv.of_n
      rw [readNullable_n read hspace, map_eq_ok_iff]
      simp only [readWord_eq_ok_iff, List.cons_append, List.nil_append, List.cons.injEq, true_and,
        Prod.mk.injEq]
      constructor
      · rintro ⟨_, rfl, rfl, rfl⟩
        exact ⟨rfl, .inl rfl⟩
      · rintro ⟨rfl, rfl | ⟨x, hx, -⟩⟩
        · exact ⟨_, rfl, rfl, rfl⟩
        · exact absurd hx (hnull x)
    · have hv' : v ≠ .null := by
        rintro rfl
        cases hv
        exact hn rfl
      rw [readNullable_other read hspace (not_isSpace_of_startsValue hc) hn]
      have hread := (hread.map some).reads_iff .none hv hr y r'
      rw [hread]
      simp [hv']
  sound {s r y} h := by
    rw [readNullable] at h
    split at h
    · next hs =>
      obtain ⟨u, hu, heq⟩ := map_eq_ok_iff.1 h
      obtain ⟨rfl, rfl⟩ := Prod.mk.inj heq
      rw [readWord_eq_ok_iff.1 hu] at hs
      exact ⟨_, _, space_of_skipSpace hs, .null, .inl ⟨rfl, rfl⟩⟩
    · obtain ⟨v, t, hspace, hv, hmeans⟩ := (hread.map some).sound h
      exact ⟨v, t, (space_skipSpace s).trans hspace, hv, .inr hmeans⟩

/-! ## Lists -/

theorem nextItem_close {first : Bool} {s r : List Char} (h : Space s (']' :: r)) :
    nextItem first s = .ok none := by
  rw [nextItem, h.skipSpace_cons (by decide)]
  rfl

theorem nextItem_gap {first : Bool} {s t r : List Char} {v : Value} (h : Gap first s t)
    (hv : Written v t r) : nextItem first s = .ok (some t) := by
  obtain ⟨c, u, rfl, hc⟩ := hv.head
  have hspace := not_isSpace_of_startsValue hc
  have hbracket := ne_of_startsValue (d := ']') (by decide) hc
  cases h with
  | start h =>
    rw [nextItem, h.skipSpace_cons hspace]
    dsimp only
    rw [if_neg hbracket, if_pos rfl]
  | comma h h' =>
    rw [nextItem, h.skipSpace_cons (by decide)]
    dsimp only
    rw [if_neg (by decide), if_neg (by decide), if_pos rfl, h'.skipSpace_cons hspace]
    dsimp only
    rw [if_neg hbracket]

/-- Either a list is at its end, or its next item follows. -/
theorem nextItem_sound {first : Bool} {s : List Char} {o : Option (List Char)}
    (h : nextItem first s = .ok o) :
    (o = none ∧ ∃ r, Space s (']' :: r)) ∨ ∃ t, o = some t ∧ Gap first s t := by
  rw [nextItem] at h
  split at h
  · cases h
  next c rest hs =>
  have hspace := space_of_skipSpace hs
  split at h
  · next hc =>
    cases h
    exact .inl ⟨rfl, rest, hc ▸ hspace⟩
  split at h
  · next hfirst =>
    cases h
    exact .inr ⟨_, rfl, hfirst ▸ .start hspace⟩
  next hfirst =>
  rw [Bool.not_eq_true] at hfirst
  split at h
  · next hc =>
    split at h
    · cases h
    next hs' =>
    split at h
    · cases h
    · cases h
      exact .inr ⟨_, rfl, hfirst ▸ .comma (hc ▸ hspace) (space_of_skipSpace hs')⟩
  · cases h

theorem closeList_eq_ok_iff {s r : List Char} : closeList s = .ok r ↔ Space s (']' :: r) := by
  constructor
  · intro h
    rw [closeList] at h
    split at h
    · cases h
    next hs =>
    split at h
    · next hc =>
      cases h
      exact hc ▸ space_of_skipSpace hs
    · split at h <;> cases h
  · intro h
    rw [closeList, h.skipSpace_cons (by decide)]
    rfl

/-- Space before a bracket is read in one way only. -/
theorem Space.close_unique {s r r' : List Char} (h : Space s (']' :: r))
    (h' : Space s (']' :: r')) :
    r' = r :=
  Except.ok.inj ((closeList_eq_ok_iff.2 h').symm.trans (closeList_eq_ok_iff.2 h))

theorem readItems_succ (item : Reader α) (n : Nat) (first : Bool) (s t : List Char) (xs : List α) :
    readItems item (n + 1) first s = .ok (xs, t) ↔
      (nextItem first s = .ok none ∧ xs = [] ∧ s = t) ∨
      ∃ u x v ys, nextItem first s = .ok (some u) ∧ item u = .ok (x, v) ∧
        readItems item n false v = .ok (ys, t) ∧ x :: ys = xs := by
  rw [readItems, bind_eq_ok_iff]
  constructor
  · rintro ⟨_ | u, hnext, h⟩
    · obtain ⟨rfl, rfl⟩ := Prod.mk.inj (Except.ok.inj h)
      exact .inl ⟨hnext, rfl, rfl⟩
    · obtain ⟨⟨x, v⟩, hitem, h⟩ := bind_eq_ok_iff.1 h
      obtain ⟨⟨ys, _⟩, hitems, h⟩ := bind_eq_ok_iff.1 h
      obtain ⟨rfl, rfl⟩ := Prod.mk.inj (Except.ok.inj h)
      exact .inr ⟨u, x, v, ys, hnext, hitem, hitems, rfl⟩
  · rintro (⟨hnext, rfl, rfl⟩ | ⟨u, x, v, ys, hnext, hitem, hitems, rfl⟩)
    · exact ⟨none, hnext, rfl⟩
    · refine ⟨some u, hnext, bind_eq_ok_iff.2 ⟨(x, v), hitem, ?_⟩⟩
      exact bind_eq_ok_iff.2 ⟨(ys, t), hitems, rfl⟩

/-- Items and the bracket that ends them are read as what they mean.  The induction is on the
items. -/
theorem Reads.items_iff (hread : Reads read Means) {first : Bool} {vs : List Value}
    {s r : List Char} (h : Listed Written ']' first vs s r) {n : Nat} (hn : s.length < n)
    {xs : List α} {r' : List Char} :
    (∃ t, readItems read n first s = .ok (xs, t) ∧ closeList t = .ok r') ↔
      r' = r ∧ List.Forall₂ Means vs xs := by
  induction h generalizing n xs with
  | @close first s r hclose =>
    obtain ⟨n, rfl⟩ := Nat.exists_eq_succ_of_ne_zero (Nat.ne_of_gt (Nat.zero_lt_of_lt hn))
    simp only [readItems_succ, nextItem_close hclose, closeList_eq_ok_iff]
    constructor
    · rintro ⟨t, ⟨-, rfl, rfl⟩ | ⟨_, _, _, _, h, -⟩, hclose'⟩
      · exact ⟨hclose.close_unique hclose', .nil⟩
      · cases h
    · rintro ⟨rfl, hmeans⟩
      cases hmeans
      exact ⟨s, .inl ⟨trivial, rfl, rfl⟩, hclose⟩
  | @item first v vs s t u r hgap hv htail ih =>
    obtain ⟨n, rfl⟩ := Nat.exists_eq_succ_of_ne_zero (Nat.ne_of_gt (Nat.zero_lt_of_lt hn))
    have hle := hgap.length_le
    have hlt := hv.length_lt
    have ih := @ih n (by omega)
    have hitem := hread.reads_iff .none hv (htail.ended (by decide))
    simp only [readItems_succ, nextItem_gap hgap hv]
    constructor
    · rintro ⟨w, ⟨h, -⟩ | ⟨_, x, _, ys, h, hx, hys, rfl⟩, hclose⟩
      · cases h
      · obtain rfl := Option.some.inj (Except.ok.inj h)
        obtain ⟨rfl, hmeans⟩ := (hitem x _).1 hx
        obtain ⟨rfl, hmeans'⟩ := ih.1 ⟨w, hys, hclose⟩
        exact ⟨rfl, .cons hmeans hmeans'⟩
    · rintro ⟨rfl, hmeans⟩
      cases hmeans with
      | @cons _ x _ ys hmeans hmeans' =>
        obtain ⟨w, hys, hclose⟩ := ih.2 ⟨rfl, hmeans'⟩
        exact ⟨w, .inr ⟨t, x, u, ys, rfl, (hitem x u).2 ⟨rfl, hmeans⟩, hys, rfl⟩, hclose⟩

/-- What is read as items is written as items.  The induction is on the bound for them. -/
theorem Reads.items_sound (hread : Reads read Means) {n : Nat} {first : Bool} {s t r : List Char}
    {xs : List α} (h : readItems read n first s = .ok (xs, t)) (hclose : closeList t = .ok r) :
    ∃ vs, Listed Written ']' first vs s r ∧ List.Forall₂ Means vs xs := by
  induction n generalizing first s xs with
  | zero => cases h
  | succ n ih =>
    obtain ⟨-, rfl, rfl⟩ | ⟨u, x, v, ys, hnext, hx, hys, rfl⟩ := (readItems_succ ..).1 h
    · exact ⟨[], .close (closeList_eq_ok_iff.1 hclose), .nil⟩
    · obtain ⟨h, -⟩ | ⟨_, h, hgap⟩ := nextItem_sound hnext
      · cases h
      obtain rfl := Option.some.inj h
      obtain ⟨w, t', hspace, hw, hmeans⟩ := hread.sound hx
      obtain ⟨ws, hws, hmeans'⟩ := ih hys
      exact ⟨w :: ws, .item (hgap.trans hspace) hw hws, .cons hmeans hmeans'⟩

theorem readList_bracket (item : Reader α) {s u r : List Char} {xs : List α}
    (h : Space s ('[' :: u)) : readList item s = .ok (xs, r) ↔
      ∃ t, readItems item (u.length + 1) true u = .ok (xs, t) ∧ closeList t = .ok r := by
  rw [readList, h.skipSpace_cons (by decide)]
  refine bind_eq_ok_iff.trans ?_
  constructor
  · rintro ⟨⟨ys, t⟩, hitems, h⟩
    obtain ⟨_, hclose, h⟩ := bind_eq_ok_iff.1 h
    obtain ⟨rfl, rfl⟩ := Prod.mk.inj (Except.ok.inj h)
    exact ⟨t, hitems, hclose⟩
  · rintro ⟨t, hitems, hclose⟩
    exact ⟨(xs, t), hitems, bind_eq_ok_iff.2 ⟨r, hclose, rfl⟩⟩

theorem readList_other (item : Reader α) {s u : List Char} {c : Char} (h : Space s (c :: u))
    (hspace : isSpace c = false) (hc : c ≠ '[') :
    readList item s = .error (wrongValue "a sequence" (c :: u)) := by
  rw [readList, h.skipSpace_cons hspace]
  split
  · next heq => cases heq
  · next heq => exact absurd (List.cons.inj heq).1 hc
  · rfl

/-- Lists are read as lists of what their items mean. -/
theorem Reads.list (hread : Reads read Means) :
    Reads (readList read) fun v xs => ∃ vs, v = .list vs ∧ List.Forall₂ Means vs xs where
  reads_iff {v s t r} hspace hv hr xs r' := by
    obtain ⟨c, u, rfl, hc⟩ := hv.head
    by_cases hbracket : c = '['
    · subst hbracket
      obtain ⟨vs, rfl, hl⟩ := hv.of_bracket
      rw [readList_bracket read hspace, hread.items_iff hl (Nat.lt_succ_self _)]
      simp
    · rw [readList_other read hspace (not_isSpace_of_startsValue hc) hbracket]
      refine ⟨nofun, ?_⟩
      rintro ⟨-, vs, rfl, -⟩
      cases hv
      exact absurd rfl hbracket
  sound {s r xs} h := by
    cases hs : skipSpace s with
    | nil =>
      rw [readList, hs] at h
      cases h
    | cons c u =>
      have hspace := space_of_skipSpace hs
      by_cases hbracket : c = '['
      · subst hbracket
        obtain ⟨t, hitems, hclose⟩ := (readList_bracket read hspace).1 h
        obtain ⟨vs, hl, hmeans⟩ := hread.items_sound hitems hclose
        exact ⟨.list vs, _, hspace, .list hl, vs, rfl, hmeans⟩
      · rw [readList_other read hspace (not_isSpace_of_skipSpace hs) hbracket] at h
        cases h

/-! ## Values that stand for one thing each -/

/-- The value of a text. -/
def Value.ofText (s : String) : Value := .text (some s)

/-- The value of a list of texts. -/
def Value.ofTexts (xs : List String) : Value := .list (xs.map ofText)

/-- The value of something that may be missing. -/
def Value.ofOption (encode : α → Value) : Option α → Value
  | none => .null
  | some x => encode x

theorem Value.ofText_injective (s t : String) (h : ofText s = ofText t) : s = t :=
  Option.some.inj (Value.text.inj h)

theorem Value.ofTexts_injective (xs ys : List String) (h : ofTexts xs = ofTexts ys) : xs = ys :=
  (List.map_inj_right ofText_injective).1 (Value.list.inj h)

theorem Value.ofOption_injective {encode : α → Value} (hencode : ∀ x y, encode x = encode y → x = y)
    (hnull : ∀ x, encode x ≠ .null) {o o' : Option α}
    (h : Value.ofOption encode o = Value.ofOption encode o') : o = o' := by
  cases o with
  | none =>
    cases o' with
    | none => rfl
    | some y => exact absurd h.symm (hnull y)
  | some x =>
    cases o' with
    | none => exact absurd h (hnull x)
    | some y => rw [hencode x y h]

/-- A reader takes the values that something has as its encoding. -/
abbrev Decodes (read : Reader α) (encode : α → Value) : Prop := Reads read fun v x => v = encode x

theorem Decodes.nullable {encode : α → Value} (hread : Decodes read encode)
    (hnull : ∀ x, encode x ≠ .null) : Decodes (readNullable read) (.ofOption encode) := by
  refine (Reads.nullable hread fun x h => hnull x h.symm).congr fun v y => ?_
  cases y with
  | none => simp [Value.ofOption]
  | some x => simp [Value.ofOption]

theorem Decodes.list {encode : α → Value} (hread : Decodes read encode) :
    Decodes (readList read) fun xs => .list (xs.map encode) := by
  have hitems : ∀ vs (xs : List α), List.Forall₂ (fun v x => v = encode x) vs xs ↔
      vs = xs.map encode := by
    intro vs xs
    rw [← List.forall₂_map_right_iff, List.forall₂_eq_eq_eq]
  refine (Reads.list hread).congr fun v xs => ?_
  simp only [hitems, exists_eq_right]

theorem decodes_text (wanted : String) : Decodes (readTextAs wanted) .ofText :=
  reads_textAs wanted

theorem decodes_texts (wanted : String) : Decodes (readList (readTextAs wanted)) .ofTexts :=
  (decodes_text wanted).list

/-! ## Whole texts -/

namespace Reads

/-- A whole text is read as what its value means. -/
theorem whole_iff (hread : Reads read Means) {v : Value} {s : List Char} (h : Document v s)
    (x : α) :
    readWhole read s = .ok x ↔ Means v x := by
  obtain ⟨t, r, hspace, hv, hend⟩ := h
  have hiff := hread.reads_iff hspace hv hend.ended_nil
  refine bind_eq_ok_iff.trans ⟨?_, fun hmeans => ⟨(x, r), (hiff x r).2 ⟨rfl, hmeans⟩, ?_⟩⟩
  · rintro ⟨⟨y, r'⟩, hy, h⟩
    obtain ⟨rfl, hmeans⟩ := (hiff y r').1 hy
    dsimp only at h
    rw [hend.skipSpace_nil] at h
    cases h
    exact hmeans
  · dsimp only
    rw [hend.skipSpace_nil]

/-- A whole text that is read is a value. -/
theorem whole_sound (hread : Reads read Means) {s : List Char} {x : α}
    (h : readWhole read s = .ok x) : ∃ v, Document v s ∧ Means v x := by
  obtain ⟨⟨y, r⟩, hy, h⟩ := bind_eq_ok_iff.1 h
  obtain ⟨v, t, hspace, hv, hmeans⟩ := hread.sound hy
  dsimp only at h
  split at h
  · next hend =>
    cases h
    exact ⟨v, ⟨t, r, hspace, hv, space_of_skipSpace hend⟩, hmeans⟩
  · cases h

/-- Reading a whole text comes down to the values that it can be. -/
theorem whole_eq_ok_iff (hread : Reads read Means) {s : List Char} {x : α} :
    readWhole read s = .ok x ↔ ∃ v, Document v s ∧ Means v x :=
  ⟨hread.whole_sound, fun ⟨_, hv, hmeans⟩ => (hread.whole_iff hv x).2 hmeans⟩

end Reads

end LintHooks.Json
